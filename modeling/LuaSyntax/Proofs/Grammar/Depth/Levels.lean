import LuaSyntax.Proofs.Grammar.Depth.Grammar

/-!
# Counting what is open, and levels

What is open is closed again however the rule for it comes out, so a count of it comes back to where it was. A
parse that counts and has a limit, or is cut off, therefore does what one does that has no count but as many
levels as may be open still.
-/

namespace LuaSyntax.Grammar

open Rule

variable {α β : Type} {limit : Option Nat} {fuel depth room : Nat} {nested nested' : Nested} {early : Bool}

/-! ## Rules that close what they open -/

/-- A rule behind which as much is open as before it, also if it fails. -/
structure Rule.Restores (r : Rule α) : Prop where
  depth : ∀ context s, (r context s).2.depth = s.depth
  deepest : ∀ context s, s.deepest ≤ (r context s).2.deepest
  onward : ∀ context (s : State), s.Onward (r context s).2

/-- Rules for what is nested behind which as much is open as before them. -/
structure Nested.Restores (nested : Nested) : Prop where
  statement : nested.statement.Restores
  expression : ∀ level, (nested.expression level).Restores

namespace Rule.Restores

variable {r : Rule α} {f : α → Rule β}

/-- A rule that keeps out of counting closes what it opens, since it opens nothing. -/
theorem of_aloof (h : r.Aloof) : r.Restores where
  depth context s := (h.kept context s).1
  deepest context s := Nat.le_of_eq (h.kept context s).2.symm
  onward := h.onward

/-- One rule and then another close what they open if each does. -/
theorem bind (h : r.Restores) (hf : ∀ v, (f v).Restores) : (r >>= f).Restores := by
  have hboth (context : Context) (s : State) :
      ((r >>= f) context s).2.depth = s.depth ∧ s.deepest ≤ ((r >>= f) context s).2.deepest ∧
        s.Onward ((r >>= f) context s).2 := by
    have hdepth := h.depth context s
    have hdeepest := h.deepest context s
    have honward := h.onward context s
    match hrun : r context s with
    | (.ok v, t) =>
      rw [hrun] at hdepth hdeepest honward
      rw [bind_of_ok hrun]
      exact ⟨((hf v).depth context t).trans hdepth, Nat.le_trans hdeepest ((hf v).deepest context t),
        honward.trans ((hf v).onward context t)⟩
    | (.error error, t) =>
      rw [hrun] at hdepth hdeepest honward
      rw [bind_of_error hrun]
      exact ⟨hdepth, hdeepest, honward⟩
  exact ⟨fun context s => (hboth context s).1, fun context s => (hboth context s).2.1,
    fun context s => (hboth context s).2.2⟩

/-- What was open once counts, whatever comes behind it. -/
theorem deepest_le_bind (hf : ∀ v, (f v).Restores) (context : Context) (s : State) :
    (r context s).2.deepest ≤ ((r >>= f) context s).2.deepest := by
  match hrun : r context s with
  | (.ok v, t) =>
    rw [bind_of_ok hrun]
    exact (hf v).deepest context t
  | (.error error, t) =>
    exact Nat.le_of_eq (by rw [bind_of_error hrun])

end Rule.Restores

/-- What is made of rules that close what they open does so too. -/
theorem Rests.restores {r : Nested → Rule α} (h : Rests early r) (hn : nested.Restores) :
    (r nested).Restores := by
  induction h with
  | aloof h => exact .of_aloof h
  | nestedStatement => exact hn.statement
  | nestedExpression level => exact hn.expression level
  | bind _ _ _ _ ihr ihf => exact ihr.bind ihf
  | look _ _ ih =>
    exact ⟨fun context s => (ih s).depth context s, fun context s => (ih s).deepest context s,
      fun context s => (ih s).onward context s⟩

/-! ## Opening -/

/-- Whether no more may be open than already is. -/
def isFull (limit : Option Nat) (depth : Nat) : Bool := limit.any (· < depth + 1)

/-- To open something is to count it, and to complain where there is no room. -/
theorem enter_eq (limit : Option Nat) (context : Context) (s : State) : enter limit context s =
    (if isFull limit s.depth = true then modify State.left >>= fun _ => complain .tooManyLevels
      else pure () : Rule Unit) context s.entered := rfl

/-- Where there is no room, what would be nested is refused and stays counted as the deepest. -/
theorem nestedIn_of_full {r : Rule α} {s : State} (context : Context) (h : isFull limit s.depth = true) :
    nestedIn limit r context s = (.error (errorAt context.source s.token .tooManyLevels [s.token.near]),
      s.counting s.depth (max s.deepest (s.depth + 1))) := by
  have henter : enter limit context s =
      (.error (errorAt context.source s.token .tooManyLevels [s.token.near]), s.entered.left) := by
    rw [enter_eq, if_pos h]
    rfl
  exact bind_of_error henter

/-- Where there is room, what is nested is read and then closed, whatever came of it. -/
theorem nestedIn_of_not_full {r : Rule α} {s : State} (context : Context) (h : isFull limit s.depth = false) :
    nestedIn limit r context s = ((r context s.entered).1, (r context s.entered).2.left) := by
  have henter : enter limit context s = (.ok (), s.entered) := by
    rw [enter_eq, if_neg (ne_true_of_eq_false h)]
    rfl
  exact bind_of_ok henter

/-- Without a limit there is always room. -/
theorem nestedIn_none {r : Rule α} (context : Context) (s : State) :
    nestedIn none r context s = ((r context s.entered).1, (r context s.entered).2.left) :=
  nestedIn_of_not_full context rfl

/-- What is opened is closed again, also if it fails. -/
theorem restores_nestedIn {r : Rule α} (h : r.Restores) : (nestedIn limit r).Restores := by
  have hboth (context : Context) (s : State) :
      (nestedIn limit r context s).2.depth = s.depth ∧ s.deepest ≤ (nestedIn limit r context s).2.deepest ∧
        s.Onward (nestedIn limit r context s).2 := by
    cases hfull : isFull limit s.depth with
    | true =>
      rw [nestedIn_of_full context hfull]
      exact ⟨rfl, Nat.le_max_left _ _, .of_eq rfl rfl⟩
    | false =>
      rw [nestedIn_of_not_full context hfull]
      exact ⟨congrArg (· - 1) (h.depth context s.entered),
        Nat.le_trans (Nat.le_max_left _ _) (h.deepest context s.entered),
        (h.onward context s.entered).taken, (h.onward context s.entered).held⟩
  exact ⟨fun context s => (hboth context s).1, fun context s => (hboth context s).2.1,
    fun context s => (hboth context s).2.2⟩

/-- Tells an observer of a statement that was read. -/
def told : Option Statement → Rule (Option Statement)
  | none => pure none
  | some statement => complete (.statement statement) >>= fun _ => pure (some statement)

/-- Telling of a statement keeps out of counting. -/
theorem aloof_told (found : Option Statement) : (told found).Aloof := by
  cases found with
  | none => exact .give none
  | some statement => exact ⟨fun _ _ _ _ => rfl, fun _ _ => .of_eq rfl rfl⟩

/-- A complaint keeps out of counting. -/
theorem aloof_complain {message : Message} : (complain message : Rule α).Aloof :=
  ⟨fun _ _ _ _ => rfl, fun _ _ => .refl _⟩

/-- The rules that open what they read close it. -/
theorem restores_opening (hn : nested.Restores) : (nested.opening limit).Restores where
  statement := by
    have hstatement : Rests false statement := .statement
    exact (restores_nestedIn (hstatement.restores hn)).bind fun found => .of_aloof (aloof_told found)
  expression level :=
    have hoperation : Rests false fun nested => operation nested level := .operation level
    restores_nestedIn (hoperation.restores hn)

/-- So many times the rules that open what they read, one over the other, and the last over a bottom. -/
def Nested.opened (limit : Option Nat) (bottom : Nested) : Nat → Nested
  | 0 => bottom
  | fuel + 1 => (opened limit bottom fuel).opening limit

/-- Over a bottom that closes what it opens, all levels do. -/
theorem restores_opened {bottom : Nested} (h : bottom.Restores) (limit : Option Nat) (fuel : Nat) :
    (Nested.opened limit bottom fuel).Restores := by
  induction fuel with
  | zero => exact h
  | succ fuel ih => exact restores_opening ih

/-- The rules for what is nested stand over a bottom that refuses everything. -/
theorem nestedRules_eq_opened (limit : Option Nat) (fuel : Nat) :
    nestedRules limit fuel = .opened limit .bottom fuel := by
  induction fuel with
  | zero => rfl
  | succ fuel ih => rw [nestedRules, ih, Nested.opened]

/-- The rules that refuse everything close what they open, since they open nothing. -/
theorem restores_bottom : Nested.bottom.Restores :=
  ⟨.of_aloof aloof_complain, fun _ => .of_aloof aloof_complain⟩

/-- The rules for a statement and for an expression close what they open, whatever comes of it. -/
theorem restores_nestedRules (limit : Option Nat) (fuel : Nat) : (nestedRules limit fuel).Restores := by
  rw [nestedRules_eq_opened]
  exact restores_opened restores_bottom limit fuel

/-! ## Room -/

/-- How many more may be open where some are: what a limit leaves, or else what the rules are cut off behind. -/
def HasRoom (limit : Option Nat) (fuel depth room : Nat) : Prop :=
  match limit with
  | none => room = fuel
  | some limit => depth + room = limit ∧ room < fuel

/-- Where there is room for one more, it may be opened, and then there is room for one less. -/
theorem HasRoom.succ (h : HasRoom limit fuel depth (room + 1)) : ∃ less, fuel = less + 1 ∧
    isFull limit depth = false ∧ HasRoom limit less (depth + 1) room := by
  cases limit with
  | none => exact ⟨room, h.symm, rfl, rfl⟩
  | some limit =>
    obtain ⟨hlimit, hfuel⟩ := h
    obtain ⟨less, rfl⟩ := Nat.exists_eq_succ_of_ne_zero (show fuel ≠ 0 by omega)
    refine ⟨less, rfl, decide_eq_false ?_, ?_, ?_⟩ <;> omega

/-- A rule that refuses what it stands at, for being nested too deep. -/
def Rule.Refuses (depth : Nat) (r : Rule α) : Prop :=
  ∀ context s, s.depth = depth → ∃ deepest, r context s =
    (.error (errorAt context.source s.token .tooManyLevels [s.token.near]), s.counting s.depth deepest)

/-- What would be opened where no more may be open is refused. -/
theorem refuses_nestedIn {r : Rule α} (h : isFull limit depth = true) : (nestedIn limit r).Refuses depth := by
  rintro context s rfl
  exact ⟨_, nestedIn_of_full context h⟩

/-- Rules that refuse all that would be nested. -/
structure Nested.Refuses (depth : Nat) (nested : Nested) : Prop where
  statement : nested.statement.Refuses depth
  expression : ∀ level, (nested.expression level).Refuses depth

/-- Where no more may be open, nothing is opened, whatever would be nested in it. -/
theorem refuses_opening (h : isFull limit depth = true) : (nested.opening limit).Refuses depth := by
  refine ⟨fun context s hs => ?_, fun level => refuses_nestedIn h⟩
  obtain ⟨deepest, hrun⟩ := refuses_nestedIn (r := statement nested) h context s hs
  exact ⟨deepest, bind_of_error hrun⟩

/-- The bottom refuses everything. -/
theorem refuses_bottom (depth : Nat) : Nested.bottom.Refuses depth :=
  ⟨fun _ s _ => ⟨s.deepest, rfl⟩, fun _ _ s _ => ⟨s.deepest, rfl⟩⟩

/-- Where there is no room, all that would be nested is refused. Under a limit the bottom is not asked. -/
theorem HasRoom.refuses {bottom : Nested} (h : HasRoom limit fuel depth 0)
    (hbottom : limit = none → bottom.Refuses depth) : (Nested.opened limit bottom fuel).Refuses depth := by
  cases limit with
  | none =>
    obtain rfl : 0 = fuel := h
    exact hbottom rfl
  | some limit =>
    obtain ⟨hlimit, hfuel⟩ := h
    obtain ⟨less, rfl⟩ := Nat.exists_eq_succ_of_ne_zero (Nat.ne_of_gt hfuel)
    have hfull : isFull (some limit) depth = true := decide_eq_true (by omega)
    exact refuses_opening hfull

/-! ## Levels -/

/-- Where so much is open, a rule that counts comes to what one comes to that does not count. -/
def Rule.Mirrors (depth : Nat) (r q : Rule α) : Prop :=
  ∀ context s depth' deepest, s.depth = depth → q context (s.counting depth' deepest) =
    ((r context s).1, (r context s).2.counting depth' deepest)

/-- Rules for what is nested that mirror others. -/
structure Nested.Mirrors (depth : Nat) (nested nested' : Nested) : Prop where
  statement : nested.statement.Mirrors depth nested'.statement
  expression : ∀ level, (nested.expression level).Mirrors depth (nested'.expression level)

/-- A rule that keeps out of counting mirrors itself. -/
theorem Rule.Mirrors.of_aloof {r : Rule α} (h : r.Aloof) : r.Mirrors depth r :=
  fun context s depth' deepest _ => h.blind context s depth' deepest

/-- Mirrored rules one behind the other are mirrored, if the first closes what it opens. -/
theorem Rule.Mirrors.bind {r q : Rule α} {f g : α → Rule β} (h : r.Mirrors depth q) (hr : r.Restores)
    (hf : ∀ v, (f v).Mirrors depth (g v)) : (r >>= f).Mirrors depth (q >>= g) := by
  intro context s depth' deepest hs
  have hq := h context s depth' deepest hs
  have hdepth := hr.depth context s
  match hrun : r context s with
  | (.ok v, t) =>
    rw [hrun] at hq hdepth
    rw [bind_of_ok hq, bind_of_ok hrun]
    exact hf v context t depth' deepest (hdepth.trans hs)
  | (.error error, t) =>
    rw [hrun] at hq
    rw [bind_of_error hq, bind_of_error hrun]

/-- What is made of mirrored rules is mirrored. -/
theorem Rests.mirrors {r : Nested → Rule α} (h : Rests early r) (hn : nested.Restores)
    (hmirrors : nested.Mirrors depth nested') : (r nested).Mirrors depth (r nested') := by
  induction h with
  | aloof h => exact .of_aloof h
  | nestedStatement => exact hmirrors.statement
  | nestedExpression level => exact hmirrors.expression level
  | bind _ hr _ _ ihr ihf => exact ihr.bind (hr.restores hn) ihf
  | @look _ _ f hblind _ ih =>
    intro context s depth' deepest hs
    show f (s.counting depth' deepest) nested' context (s.counting depth' deepest) = _
    rw [hblind]
    exact ih s context s depth' deepest hs

/-- What may be opened mirrors what is read without counting. -/
theorem mirrors_nestedIn {r q : Rule α} (hfull : isFull limit depth = false) (h : r.Mirrors (depth + 1) q) :
    (nestedIn limit r).Mirrors depth q := by
  rintro context s depth' deepest rfl
  rw [nestedIn_of_not_full context hfull]
  exact h context s.entered depth' deepest rfl

/-- A rule that refuses everything comes to what one comes to that does not count. -/
theorem Rule.Refuses.mirrors {r q : Rule α} (h : r.Refuses depth)
    (hq : ∀ context s, q context s = (.error (errorAt context.source s.token .tooManyLevels [s.token.near]), s)) :
    r.Mirrors depth q := by
  intro context s depth' deepest hs
  obtain ⟨reached, hrun⟩ := h context s hs
  rw [hrun, hq]
  rfl

/-- Rules that refuse everything mirror no levels at all. -/
theorem Nested.Refuses.mirrors (h : nested.Refuses depth) : nested.Mirrors depth (levels 0) :=
  ⟨h.statement.mirrors fun _ _ => rfl, fun level => (h.expression level).mirrors fun _ _ => rfl⟩

/-- What may still be opened is read as by one level more. -/
theorem mirrors_opening (hn : nested.Restores) (hfull : isFull limit depth = false)
    (h : nested.Mirrors (depth + 1) (levels room)) : (nested.opening limit).Mirrors depth (levels (room + 1)) := by
  have hstatement : Rests false statement := .statement
  refine ⟨?_, fun level => ?_⟩
  · exact (mirrors_nestedIn hfull (hstatement.mirrors hn h)).bind (restores_nestedIn (hstatement.restores hn))
      fun found => .of_aloof (aloof_told found)
  · have hoperation : Rests false fun nested => operation nested level := .operation level
    exact mirrors_nestedIn hfull (hoperation.mirrors hn h)

/-- Where there is room for so many more, so many levels read the same, and under a limit whatever the
bottom does. -/
theorem HasRoom.mirrors {bottom : Nested} (h : HasRoom limit fuel depth room) (hrestores : bottom.Restores)
    (hbottom : limit = none → ∀ depth, bottom.Refuses depth) :
    (Nested.opened limit bottom fuel).Mirrors depth (levels room) := by
  induction room generalizing fuel depth with
  | zero => exact (h.refuses fun hnone => hbottom hnone depth).mirrors
  | succ room ih =>
    obtain ⟨less, rfl, hfull, hroom⟩ := h.succ
    exact mirrors_opening (restores_opened hrestores limit less) hfull (ih hroom)

/-! ## Whole sources -/

/-- How a parse went that came out so. -/
def Outcome.of (outcome : Except ParseError Chunk × State) : Outcome where
  result := outcome.1
  events := outcome.2.log.reverse
  atEnd := outcome.2.token.isEnd
  taken := outcome.2.taken

/-- A parse goes as one does that is mirrored by it. -/
theorem Nested.Mirrors.of_chunkOver {context : Context} {s : State} (h : nested.Mirrors s.depth nested')
    (hn : nested.Restores) :
    Outcome.of (chunkOver nested context s) = .of (chunkOver nested' context s) := by
  have hmirrored : chunkOver nested' context s = ((chunkOver nested context s).1,
      (chunkOver nested context s).2.counting s.depth s.deepest) :=
    Rests.chunkOver.mirrors hn h context s s.depth s.deepest rfl
  rw [hmirrored]
  rfl

/-- A parse goes as one does that has as many levels as there is room. -/
theorem HasRoom.of_chunkOver {context : Context} {s : State} (h : HasRoom limit fuel s.depth room) :
    Outcome.of (chunkOver (nestedRules limit fuel) context s) = .of (chunkOver (levels room) context s) := by
  rw [nestedRules_eq_opened]
  have hmirrors := h.mirrors restores_bottom fun _ => refuses_bottom
  exact hmirrors.of_chunkOver (restores_opened restores_bottom limit fuel)

/-- A chunk with a limit goes as one that has as many levels. -/
theorem of_chunk (context : Context) {s : State} (h : s.depth = 0) (limit : Nat) :
    Outcome.of (chunk limit context s) = .of (chunkOver (levels limit) context s) :=
  HasRoom.of_chunkOver ⟨by rw [h, Nat.zero_add], Nat.lt_succ_self limit⟩

/-- A parse goes as one that has as many levels as may be open. -/
theorem run_eq_levels (options : ParseOptions) (source : Text) (feed : Feed) : run options source feed =
    .of (chunkOver (levels nestingLimit) (.ofFeed options source feed) (.initial options feed)) :=
  of_chunk _ rfl _

/-- The result of a parse is that of as many levels as may be open. -/
theorem result_run (options : ParseOptions) (source : Text) (feed : Feed) : (run options source feed).result =
    (chunkOver (levels nestingLimit) (.ofFeed options source feed) (.initial options feed)).1 := by
  rw [run_eq_levels]
  rfl

end LuaSyntax.Grammar
