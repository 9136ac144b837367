import LuaSyntax.Proofs.Reading.Layout
import LuaSyntax.Proofs.Tree.Items
import LuaSyntax.Proofs.Writing.Ranked
import LuaSyntax.Proofs.Writing.Statement
import Mathlib.Data.List.Chain

/-!
# Rows of tokens with gaps

Semicolons that do nothing may be put in before a statement and where a block ends. What is written between two
points is therefore a row of tokens with gaps between them, and it is still written when the gaps are filled.
`Padded` says so of one thing, together with what tells where the gaps are: one stands before every statement that
is part of the thing, and a token that ends a block has one before it unless a `return` stands there.

A thing that is made of one token has a row of one slot, and a thing that is made of others has their rows one
behind the other. What stands behind a part may then be a semicolon that was put in. Nearly everything ends there
just as well; what does not, a `return` and the end of a block, says so by its `Edge`.
-/

namespace LuaSyntax

open Grammar (endsBlock)

/-! ## Rows -/

/-- A place in a row: a token, or a gap that semicolons may be put in. -/
inductive Slot where
  | token (token : Token)
  | gap

namespace Slot

/-- The token in a slot. -/
def token? : Slot → Option Token
  | .token inner => some inner
  | .gap => none

/-- The tokens of a row. -/
def tokens (row : List Slot) : List Token := row.filterMap token?

@[simp] theorem tokens_nil : tokens [] = [] := rfl

@[simp] theorem tokens_token (token : Token) (row : List Slot) :
    tokens (.token token :: row) = token :: tokens row := rfl

@[simp] theorem tokens_gap (row : List Slot) : tokens (.gap :: row) = tokens row := rfl

/-- The tokens of two rows are those of both together. -/
@[simp] theorem tokens_append (row others : List Slot) : tokens (row ++ others) = tokens row ++ tokens others :=
  List.filterMap_append

/-- A token is one of a row if it has a slot there. -/
theorem mem_tokens {row : List Slot} {token : Token} : token ∈ tokens row ↔ Slot.token token ∈ row := by
  rw [tokens, List.mem_filterMap]
  constructor
  · rintro ⟨slot, hslot, htoken⟩
    cases slot with
    | token other =>
      obtain rfl := Option.some.inj htoken
      exact hslot
    | gap => cases htoken
  · exact fun h => ⟨_, h, rfl⟩

/-- The tokens of a row, wherever they stand, with any number of semicolons in each gap. -/
inductive Filled : List Slot → List Token → Prop where
  | nil : Filled [] []
  | token {token token' : Token} {row : List Slot} {tokens : List Token} : token'.spelled = token.spelled →
      Filled row tokens → Filled (.token token :: row) (token' :: tokens)
  | gap {row : List Slot} {tokens : List Token} : Filled row tokens → Filled (.gap :: row) tokens
  | semicolon {token : Token} {row : List Slot} {tokens : List Token} :
      token.value = (Symbol.semicolon : Grammar.Terminal).value → Filled (.gap :: row) tokens →
      Filled (.gap :: row) (token :: tokens)

/-- A filled row is filled part by part. -/
theorem Filled.of_append {row others : List Slot} {tokens : List Token} (h : Filled (row ++ others) tokens) :
    ∃ before behind, tokens = before ++ behind ∧ Filled row before ∧ Filled others behind := by
  generalize hwhole : row ++ others = whole at h
  induction h generalizing row with
  | nil =>
    obtain ⟨rfl, rfl⟩ := List.append_eq_nil_iff.mp hwhole
    exact ⟨[], [], rfl, .nil, .nil⟩
  | token hspelled h ih =>
    cases row with
    | nil =>
      subst hwhole
      exact ⟨[], _, rfl, .nil, .token hspelled h⟩
    | cons slot row =>
      obtain ⟨rfl, hrow⟩ := List.cons.inj hwhole
      obtain ⟨before, behind, rfl, hbefore, hbehind⟩ := ih hrow
      exact ⟨_ :: before, behind, rfl, .token hspelled hbefore, hbehind⟩
  | gap h ih =>
    cases row with
    | nil =>
      subst hwhole
      exact ⟨[], _, rfl, .nil, .gap h⟩
    | cons slot row =>
      obtain ⟨rfl, hrow⟩ := List.cons.inj hwhole
      obtain ⟨before, behind, rfl, hbefore, hbehind⟩ := ih hrow
      exact ⟨before, behind, rfl, .gap hbefore, hbehind⟩
  | semicolon hsemicolon h ih =>
    cases row with
    | nil =>
      subst hwhole
      exact ⟨[], _, rfl, .nil, .semicolon hsemicolon h⟩
    | cons slot row =>
      obtain ⟨rfl, -⟩ := List.cons.inj hwhole
      obtain ⟨before, behind, rfl, hbefore, hbehind⟩ := ih hwhole
      exact ⟨_ :: before, behind, rfl, .semicolon hsemicolon hbefore, hbehind⟩

/-- Whether a row goes on from one slot to the next as it should: a block ends behind a gap, or behind the last
token of a `return` of some statements. -/
def Leads (inside : Statement → Prop) (slot next : Slot) : Prop :=
  ∀ token, next = .token token → endsBlock token = true → slot = .gap ∨ ∃ last, slot = .token last ∧
    ∃ arguments placement, inside (.returnStatement arguments placement) ∧
      ∀ span ∈ placement.range, span.stop = max last.stop.offset span.start

section

variable {inside more : Statement → Prop} {slot next : Slot} {row others : List Slot}

/-- A row that goes on as it should does so for more statements. -/
theorem Leads.mono (h : Leads inside slot next) (hmore : ∀ statement, inside statement → more statement) :
    Leads more slot next := by
  intro token hnext hends
  refine (h token hnext hends).imp_right ?_
  rintro ⟨last, hlast, arguments, placement, hinside, hstop⟩
  exact ⟨last, hlast, arguments, placement, hmore _ hinside, hstop⟩

/-- A gap may stand behind any slot. -/
theorem leads_gap : Leads inside slot .gap := nofun

/-- Any slot may stand behind a gap. -/
theorem gap_leads : Leads inside .gap next := fun _ _ _ => .inl rfl

/-- A token that ends no block may stand behind any slot. -/
theorem leads_token {token : Token} (h : endsBlock token = false) : Leads inside slot (.token token) := by
  rintro _ heq hends
  obtain rfl := Slot.token.inj heq
  cases h.symm.trans hends

/-- Two rows go on as they should if each does. -/
theorem isChain_append (h : (slot :: row).IsChain (Leads inside))
    (hothers : ∀ slot, (slot :: others).IsChain (Leads inside)) :
    (slot :: (row ++ others)).IsChain (Leads inside) := by
  induction row generalizing slot with
  | nil => exact hothers slot
  | cons next row ih =>
    obtain ⟨hnext, hrow⟩ := List.isChain_cons_cons.mp h
    exact .cons_cons hnext (ih hrow)

end

end Slot

/-! ## Points -/

/-- How much a thing minds what stands behind it: a loose one may have a semicolon behind it that was put in, a tight
one ends before a token that was there, and a closed one is a block. -/
inductive Edge where
  | loose
  | tight
  | closed
  deriving DecidableEq

/-- Whether what stands behind one point may stand behind another in its place. -/
def Edge.Allows (edge : Edge) (q q' : Point) : Prop :=
  q'.token.value = q.token.value ∨ edge = .loose ∧ q'.Faces Symbol.semicolon

/-- What stands in the place of a tight end is the same token. -/
theorem Edge.Allows.value_eq {edge : Edge} {q q' : Point} (h : edge.Allows q q') (hedge : edge ≠ .loose) :
    q'.token.value = q.token.value :=
  h.resolve_right fun hloose => hedge hloose.1

namespace Point

variable {p q r p' q' : Point} {row others : List Token}

/-- Tokens between points may be put together. -/
theorem Spans.append (h : p.Spans row q) (h' : q.Spans others r) : p.Spans (row ++ others) r := by
  induction h with
  | nil => exact h'
  | cons htoken _ ih => exact .cons htoken (ih h')

/-- Between a point and the next is one token. -/
theorem spans_step : p.Spans [p.token] p.step := .cons rfl .nil

/-- One token leads to the next point. -/
theorem Spans.singleton {token : Token} (h : p.Spans [token] q) : p.token = token ∧ q = p.step := by
  obtain _ | ⟨htoken, hnil⟩ := h
  cases hnil
  exact ⟨htoken, rfl⟩

/-- No token leads to the same point. -/
theorem Spans.eq_of_nil (h : p.Spans [] q) : q = p := by
  cases h
  rfl

/-- The end of the row is the same behind some tokens. -/
theorem Spans.last_eq (h : p.Spans row q) : q.last = p.last := by
  induction h with
  | nil => rfl
  | cons _ _ ih => exact ih

/-- Behind some tokens the last of them has been passed. -/
theorem Spans.previous_eq {token : Token} (h : p.Spans (row ++ [token]) q) : q.previous = token := by
  obtain ⟨m, -, hlast⟩ := h.of_append
  obtain ⟨rfl, rfl⟩ := hlast.singleton
  rfl

/-- A row of tokens that are not the end is what is passed. -/
theorem Spans.rest_eq (h : p.Spans row q) (hend : ∀ token ∈ row, token.isEnd = false) : p.rest = row ++ q.rest := by
  induction h with
  | nil => rfl
  | cons htoken _ ih =>
    obtain ⟨hfirst, hothers⟩ := List.forall_mem_cons.mp hend
    rw [rest_of_token (htoken ▸ hfirst), htoken, ih hothers, List.cons_append]

end Point

namespace Edge

variable {edge : Edge} {p q p' q' : Point} {terminal : Grammar.Terminal}

/-- What may stand behind a thing may stand behind a loose one. -/
theorem Allows.loosen (h : edge.Allows q q') : loose.Allows q q' := h.imp_right fun h => ⟨rfl, h.2⟩

/-- What is so of a token and of a semicolon is so of what may stand in the token's place. -/
theorem Allows.elim {motive : TokenValue → Prop} (h : edge.Allows q q') (hq : motive q.token.value)
    (hsemicolon : motive (Symbol.semicolon : Grammar.Terminal).value) : motive q'.token.value := by
  rcases h with hvalue | ⟨-, hfaces⟩
  · rwa [hvalue]
  · rwa [show q'.token.value = _ from hfaces]

/-- What may stand in place of a token is no terminal that the token is not, but for a semicolon. -/
theorem Allows.not_faces (h : edge.Allows q q') (hq : ¬ q.Faces terminal)
    (hne : (Symbol.semicolon : Grammar.Terminal) ≠ terminal) : ¬ q'.Faces terminal := by
  rcases h with hvalue | ⟨-, hfaces⟩
  · rwa [Point.Faces, hvalue]
  · exact hfaces.not_faces hne

/-- What may stand in place of a token that starts no suffix starts none. -/
theorem Allows.startsSuffix_eq (h : edge.Allows q q') (hq : Grammar.startsSuffix q.token = false) :
    Grammar.startsSuffix q'.token = false := by
  rcases h with hvalue | ⟨-, hfaces⟩
  · rw [Grammar.startsSuffix, hvalue]
    exact hq
  · rw [Grammar.startsSuffix, show q'.token.value = _ from hfaces]
    rfl

/-- What stands before a filled row is the first token of it, unless a semicolon was put in there. -/
theorem allows_of_filled {row : List Slot} {tokens : List Token} (h : p.Spans (Slot.tokens row) q)
    (hfilled : Slot.Filled row tokens) (h' : p'.Spans tokens q') (hedge : edge.Allows q q') :
    loose.Allows p p' := by
  induction hfilled with
  | nil =>
    rw [← h.eq_of_nil, ← h'.eq_of_nil]
    exact hedge.loosen
  | token hspelled =>
    obtain _ | ⟨htoken, -⟩ := h
    obtain _ | ⟨htoken', -⟩ := h'
    left
    rw [htoken, htoken']
    exact congrArg Prod.fst hspelled
  | gap _ ih => exact ih h h'
  | semicolon hsemicolon =>
    obtain _ | ⟨htoken', -⟩ := h'
    exact .inr ⟨rfl, by rw [Point.Faces, htoken', hsemicolon]⟩

end Edge

/-! ## Parts of padded rows -/

variable {edge : Edge} {inside inside' more : Statement → Prop} {row others : List Slot} {p q r m : Point}
  {written written' : Point → Point → Prop}

/-- A row with gaps between two points in which something is written, however the gaps are filled: the row has a gap
before every statement inside the thing, and its blocks end as they should. -/
structure Pads (edge : Edge) (inside : Statement → Prop) (row : List Slot) (p q : Point)
    (written : Point → Point → Prop) : Prop where
  spans : p.Spans (Slot.tokens row) q
  proper : ∀ token ∈ Slot.tokens row, token.isEnd = false
  opens : ∀ statement, inside statement → ∀ span ∈ statement.placement.range,
    ∃ token, [.gap, .token token] <:+: row ∧ token.start.offset = span.start
  leads : ∀ slot, (slot :: row).IsChain (Slot.Leads inside)
  written : ∀ tokens p' q', Slot.Filled row tokens → p'.Spans tokens q' → edge.Allows q q' → written p' q'

/-- Whether a statement declares a structure. Such a one ends with the word that ends blocks, and has none. -/
def Statement.isStructure : Statement → Bool
  | .structureDeclaration .. => true
  | _ => false

/-- What is written between two points is written with semicolons put in, if it declares no structures. The row
begins with its first token if it is `headed`, and any token may end the block of a closed one. -/
def Padded (headed : Bool) (edge : Edge) (inside : Statement → Prop) (p q : Point)
    (written : Point → Point → Prop) : Prop :=
  (∀ statement, inside statement → statement.isStructure = false) →
    ∃ row, (headed = true → ∃ behind, row = .token p.token :: behind) ∧
      (edge = .closed → ∃ before last, row = before ++ [last] ∧ ∀ next, Slot.Leads inside last next) ∧
      Pads edge inside row p q written

/-- Nothing is inside a thing without statements. -/
def Nothing : Statement → Prop := fun _ => False

/-- There is no statement inside nothing. -/
@[simp] theorem nothing_iff {statement : Statement} : Nothing statement ↔ False := .rfl

/-! ### Rows -/

/-- A padded thing behind a loose one makes one padded thing. -/
theorem Pads.append (h : Pads .loose inside row p m written) (h' : Pads edge inside' others m q written') :
    Pads edge (fun statement => inside statement ∨ inside' statement) (row ++ others) p q
      (Relation.Comp written written') where
  spans := by
    rw [Slot.tokens_append]
    exact h.spans.append h'.spans
  proper := by
    rw [Slot.tokens_append]
    exact List.forall_mem_append.mpr ⟨h.proper, h'.proper⟩
  opens := by
    rintro statement (hinside | hinside) span hspan
    · obtain ⟨token, hgap, hstart⟩ := h.opens statement hinside span hspan
      exact ⟨token, hgap.trans (List.prefix_append row others).isInfix, hstart⟩
    · obtain ⟨token, hgap, hstart⟩ := h'.opens statement hinside span hspan
      exact ⟨token, hgap.trans (List.suffix_append row others).isInfix, hstart⟩
  leads slot := Slot.isChain_append ((h.leads slot).imp fun _ _ hleads => hleads.mono fun _ => .inl)
    fun slot => (h'.leads slot).imp fun _ _ hleads => hleads.mono fun _ => .inr
  written := by
    intro tokens p' q' hfilled hspans hedge
    obtain ⟨before, behind, rfl, hbefore, hbehind⟩ := hfilled.of_append
    obtain ⟨m', hspans, hspans'⟩ := hspans.of_append
    exact ⟨m', h.written _ _ _ hbefore hspans (Edge.allows_of_filled h'.spans hbehind hspans' hedge),
      h'.written _ _ _ hbehind hspans' hedge⟩

/-- Behind a row comes a token, be the row loose or not. A token that ends a block comes behind a block only. -/
theorem Pads.pass (h : Pads edge inside row p q written) (hend : q.token.isEnd = false)
    (hleads : ∀ slot, (slot :: (row ++ [.token q.token])).IsChain (Slot.Leads inside)) :
    Pads .loose inside (row ++ [.token q.token]) p q.step fun p' r' =>
      ∃ q', written p' q' ∧ q'.token.spelled = q.token.spelled ∧ r' = q'.step where
  spans := by
    rw [Slot.tokens_append]
    exact h.spans.append Point.spans_step
  proper := by
    rw [Slot.tokens_append]
    exact List.forall_mem_append.mpr ⟨h.proper, List.forall_mem_singleton.mpr hend⟩
  opens := by
    intro statement hinside span hspan
    obtain ⟨token, hgap, hstart⟩ := h.opens statement hinside span hspan
    exact ⟨token, hgap.trans (List.prefix_append row _).isInfix, hstart⟩
  leads := hleads
  written := by
    intro tokens p' r' hfilled hspans hedge
    obtain ⟨before, behind, rfl, hbefore, hbehind⟩ := hfilled.of_append
    obtain ⟨q', hinner, hlast⟩ := hspans.of_append
    obtain _ | ⟨hspelled, hnil⟩ := hbehind
    cases hnil
    obtain ⟨rfl, rfl⟩ := hlast.singleton
    exact ⟨q', h.written _ _ _ hbefore hinner (.inl (congrArg Prod.fst hspelled)), hspelled, rfl⟩

/-- A row of a thing that semicolons may stand before has a gap at its beginning. -/
theorem Pads.gap (h : Pads edge inside row p q written)
    (hwritten : ∀ p' q', p'.Faces Symbol.semicolon → written p'.step q' → written p' q') :
    Pads edge inside (.gap :: row) p q written where
  spans := h.spans
  proper := h.proper
  opens := by
    intro statement hinside span hspan
    obtain ⟨token, hgap, hstart⟩ := h.opens statement hinside span hspan
    exact ⟨token, hgap.trans (List.suffix_cons _ row).isInfix, hstart⟩
  leads slot := .cons_cons Slot.leads_gap (h.leads .gap)
  written := by
    intro tokens
    induction tokens with
    | nil =>
      rintro p' q' (_ | _ | hfilled) hspans hedge
      exact h.written _ _ _ hfilled hspans hedge
    | cons token tokens ih =>
      intro p' q' hfilled hspans hedge
      cases hfilled with
      | gap hfilled => exact h.written _ _ _ hfilled hspans hedge
      | semicolon hsemicolon hfilled =>
        obtain _ | ⟨htoken, hspans⟩ := hspans
        refine hwritten p' q' ?_ (ih _ _ hfilled hspans hedge)
        rw [Point.Faces, htoken, hsemicolon]

/-- A statement begins with the token behind a gap. -/
theorem Pads.opened {token : Token} {statement : Statement}
    (h : Pads edge inside (.gap :: .token token :: row) p q written)
    (hstart : ∀ span ∈ statement.placement.range, span.start = token.start.offset) :
    Pads edge (fun other => other = statement ∨ inside other) (.gap :: .token token :: row) p q written where
  spans := h.spans
  proper := h.proper
  opens := by
    rintro other (rfl | hinside) span hspan
    · exact ⟨token, ⟨[], row, rfl⟩, (hstart span hspan).symm⟩
    · exact h.opens other hinside span hspan
  leads slot := (h.leads slot).imp fun _ _ hleads => hleads.mono fun _ => .inr
  written := h.written

namespace Padded

variable {headed head : Bool}

/-! ### Tokens -/

/-- Where nothing is written the row is empty. -/
theorem here (hedge : edge ≠ .closed) (h : ∀ p', edge.Allows p p' → written p' p') :
    Padded false edge Nothing p p written := by
  refine fun _ => ⟨[], nofun, fun heq => absurd heq hedge, .nil, nofun, nofun, fun _ => .singleton _, ?_⟩
  intro tokens p' q' hfilled hspans hallows
  cases hfilled
  obtain rfl := hspans.eq_of_nil
  exact h q' hallows

/-- A token that ends no block is a row of one slot. -/
theorem token (h : endsBlock p.token = false) : Padded true .loose Nothing p p.step fun p' q' =>
    p'.token.spelled = p.token.spelled ∧ q' = p'.step := by
  have hend : p.token.isEnd = false := by
    cases hend : p.token.isEnd with
    | false => rfl
    | true =>
      rw [Token.isEnd, beq_iff_eq] at hend
      rw [endsBlock, hend] at h
      cases h
  refine fun _ => ⟨[.token p.token], fun _ => ⟨[], rfl⟩, fun hclosed => Edge.noConfusion hclosed,
    Point.spans_step, List.forall_mem_singleton.mpr hend, fun _ hnothing => hnothing.elim, fun _ => .cons_cons (Slot.leads_token h) (.singleton _), ?_⟩
  intro tokens p' q' hfilled hspans _
  obtain _ | ⟨hspelled, hnil⟩ := hfilled
  cases hnil
  obtain ⟨rfl, rfl⟩ := hspans.singleton
  exact ⟨hspelled, rfl⟩

/-! ### Consequences -/

/-- A thing is written in a row in which more is written than it needs, and there are other words for what is
inside. -/
theorem mono (h : Padded headed edge inside p q written)
    (hinside : ∀ statement, inside' statement ↔ inside statement)
    (hwritten : ∀ p' q', Edge.loose.Allows p p' → edge.Allows q q' → written p' q' → written' p' q') :
    Padded headed edge inside' p q written' := by
  intro hplain
  obtain rfl : inside' = inside := funext fun statement => propext (hinside statement)
  obtain ⟨row, hhead, hclosed, hpads⟩ := h hplain
  refine ⟨row, hhead, hclosed, hpads.spans, hpads.proper, hpads.opens, hpads.leads, ?_⟩
  exact fun tokens p' q' hfilled hspans hedge =>
    hwritten p' q' (Edge.allows_of_filled hpads.spans hfilled hspans hedge) hedge
      (hpads.written _ _ _ hfilled hspans hedge)

/-- A terminal that ends no block is a row of one slot. -/
theorem faces {terminal : Grammar.Terminal} (h : p.Faces terminal)
    (hblock : endsBlock ⟨terminal.value, .start, .start, ""⟩ = false) :
    Padded true .loose Nothing p p.step fun p' q' => p'.Faces terminal ∧ q' = p'.step := by
  have hends : endsBlock p.token = false := by
    rw [endsBlock, show p.token.value = _ from h]
    exact hblock
  exact (token hends).mono (fun _ => .rfl) fun p' q' _ _ hp =>
    ⟨(congrArg Prod.fst hp.1).trans h, hp.2⟩

/-- A name is a row of one slot. -/
theorem names {name : Identifier} (h : p.Names name) :
    Padded true .loose Nothing p p.step fun p' q' => p'.Names name ∧ q' = p'.step := by
  have hends : endsBlock p.token = false := by
    rw [Point.Names, Token.name?] at h
    rw [endsBlock]
    split at h
    · next hvalue => rw [hvalue]
    · cases h
  refine (token hends).mono (fun _ => .rfl) fun p' q' _ _ hp => ⟨?_, hp.2⟩
  rw [Point.Names, Token.name?, (Prod.mk.inj hp.1).1]
  exact h

/-- A literal is a row of one slot. -/
theorem denotes {literal : Literal} (h : p.Denotes literal) :
    Padded true .loose Nothing p p.step fun p' q' => p'.Denotes literal ∧ q' = p'.step := by
  have hends : endsBlock p.token = false := by
    obtain ⟨hvalue, -⟩ := h
    rw [endsBlock]
    generalize p.token.value = value at hvalue
    cases value <;> first | rfl | cases hvalue
  refine (token hends).mono (fun _ => .rfl) fun p' q' _ _ hp => ⟨?_, hp.2⟩
  obtain ⟨hvalue, hlexeme⟩ := Prod.mk.inj hp.1
  rw [Point.Denotes, hvalue, hlexeme]
  exact h

/-- A padded thing is padded also if the first token of its row is not known. -/
theorem unheaded (h : Padded headed edge inside p q written) : Padded false edge inside p q written := by
  intro hplain
  obtain ⟨row, -, hclosed, hpads⟩ := h hplain
  exact ⟨row, nofun, hclosed, hpads⟩

/-- A loose thing is a tight one. -/
theorem tighten (h : Padded headed .loose inside p q written) : Padded headed .tight inside p q written := by
  intro hplain
  obtain ⟨row, hhead, -, hpads⟩ := h hplain
  exact ⟨row, hhead, nofun, hpads.spans, hpads.proper, hpads.opens, hpads.leads,
    fun tokens p' q' hfilled hspans hedge => hpads.written _ _ _ hfilled hspans hedge.loosen⟩

/-- A row that begins with its first token has that token first when it is filled, and next what may stand there. -/
theorem ahead (h : Padded true edge inside p q written) : Padded true edge inside p q fun p' q' =>
    written p' q' ∧ p'.token.spelled = p.token.spelled ∧ Edge.loose.Allows p.step p'.step := by
  intro hplain
  obtain ⟨row, hhead, hclosed, hpads⟩ := h hplain
  obtain ⟨behind, rfl⟩ := hhead rfl
  refine ⟨_, hhead, hclosed, hpads.spans, hpads.proper, hpads.opens, hpads.leads, ?_⟩
  intro tokens p' q' hfilled hspans hedge
  refine ⟨hpads.written _ _ _ hfilled hspans hedge, ?_⟩
  obtain _ | ⟨hspelled, hfilled⟩ := hfilled
  obtain _ | ⟨htoken', hspans⟩ := hspans
  have hspansBehind : p.step.Spans (Slot.tokens behind) q := by
    obtain _ | ⟨-, hbehind⟩ := hpads.spans
    exact hbehind
  exact ⟨htoken' ▸ hspelled, Edge.allows_of_filled hspansBehind hfilled hspans hedge⟩

/-! ### Sequences -/

/-- A thing behind a loose one is padded with it. -/
theorem append (h : Padded headed .loose inside p m written) (h' : Padded head edge inside' m q written') :
    Padded headed edge (fun statement => inside statement ∨ inside' statement) p q
      (Relation.Comp written written') := by
  intro hplain
  obtain ⟨row, hhead, -, hpads⟩ := h fun statement hinside => hplain statement (.inl hinside)
  obtain ⟨others, -, hclosed, hpads'⟩ := h' fun statement hinside => hplain statement (.inr hinside)
  refine ⟨row ++ others, fun heq => ?_, fun heq => ?_, hpads.append hpads'⟩
  · obtain ⟨behind, rfl⟩ := hhead heq
    exact ⟨behind ++ others, rfl⟩
  · obtain ⟨before, last, rfl, hlast⟩ := hclosed heq
    exact ⟨row ++ before, last, (List.append_assoc ..).symm, fun next => (hlast next).mono fun _ => .inr⟩

/-- Behind a thing comes a token. One that ends a block comes behind a block only. -/
theorem pass {terminal : Grammar.Terminal} (h : Padded headed edge inside p q written) (hfaces : q.Faces terminal)
    (hblock : edge = .closed ∨ endsBlock ⟨terminal.value, .start, .start, ""⟩ = false) :
    Padded headed .loose inside p q.step fun p' r' =>
      ∃ q', written p' q' ∧ q'.Faces terminal ∧ r' = q'.step := by
  intro hplain
  obtain ⟨row, hhead, hclosed, hpads⟩ := h hplain
  have hleads (slot : Slot) : (slot :: (row ++ [.token q.token])).IsChain (Slot.Leads inside) := by
    rcases hblock with hedge | hblock
    · obtain ⟨before, last, rfl, hlast⟩ := hclosed hedge
      rw [List.append_assoc, List.singleton_append, List.isChain_cons_append_cons_cons]
      exact ⟨hpads.leads slot, hlast _, .singleton _⟩
    · refine Slot.isChain_append (hpads.leads slot) fun slot => .cons_cons (Slot.leads_token ?_) (.singleton _)
      rw [endsBlock, show q.token.value = _ from hfaces]
      exact hblock
  have hpass := hpads.pass hfaces.isEnd_eq hleads
  refine ⟨_, fun heq => ?_, nofun, hpass.spans, hpass.proper, hpass.opens, hpass.leads, ?_⟩
  · obtain ⟨behind, rfl⟩ := hhead heq
    exact ⟨behind ++ [.token q.token], rfl⟩
  · intro tokens p' r' hfilled hspans hedge
    obtain ⟨q', hq, hspelled, rfl⟩ := hpass.written _ _ _ hfilled hspans hedge
    exact ⟨q', hq, (congrArg Prod.fst hspelled).trans hfaces, rfl⟩

/-! ### Gaps -/

section

variable (hwritten : ∀ p' q', p'.Faces Symbol.semicolon → written p'.step q' → written p' q')

include hwritten

/-- A block without statements is a gap. -/
theorem nothing (h : ∀ p', p'.token.value = p.token.value → written p' p') :
    Padded false .closed Nothing p p written := by
  have hpads : Pads .closed Nothing [] p p written := by
    refine ⟨.nil, nofun, nofun, fun _ => .singleton _, ?_⟩
    intro tokens p' q' hfilled hspans hedge
    cases hfilled
    obtain rfl := hspans.eq_of_nil
    exact h q' (hedge.value_eq (by decide))
  exact fun _ => ⟨[.gap], nofun, fun _ => ⟨[], .gap, rfl, fun _ => Slot.gap_leads⟩, hpads.gap hwritten⟩

/-- Before a statement stands a gap. -/
theorem opened {statement : Statement} (h : statement.isStructure = false → Padded true edge inside p q written)
    (hstart : ∀ span ∈ statement.placement.range, span.start = p.token.start.offset) :
    Padded false edge (fun other => other = statement ∨ inside other) p q written := by
  intro hplain
  obtain ⟨row, hhead, hclosed, hpads⟩ :=
    h (hplain statement (.inl rfl)) fun statement hinside => hplain statement (.inr hinside)
  obtain ⟨behind, rfl⟩ := hhead rfl
  refine ⟨_, nofun, fun heq => ?_, (hpads.gap hwritten).opened hstart⟩
  obtain ⟨before, last, hrow, hlast⟩ := hclosed heq
  exact ⟨.gap :: before, last, by rw [hrow, List.cons_append], fun next => (hlast next).mono fun _ => .inr⟩

/-- A block may end with a `return`, which has nothing behind it. -/
theorem returned {arguments : List Expression} {placement : Placement} (h : Padded true .tight inside p q written)
    (hstart : ∀ span ∈ placement.range, span.start = p.token.start.offset)
    (hstop : ∀ span ∈ placement.range, span.stop = max q.previous.stop.offset span.start) :
    Padded false .closed (fun other => other = .returnStatement arguments placement ∨ inside other) p q
      written := by
  intro hplain
  obtain ⟨row, hhead, -, hpads⟩ := h fun statement hinside => hplain statement (.inr hinside)
  obtain ⟨behind, rfl⟩ := hhead rfl
  have hopened := @Pads.opened _ _ _ _ _ _ _ (.returnStatement arguments placement) (hpads.gap hwritten) hstart
  refine ⟨_, nofun, fun _ => ?_, hopened.spans, hopened.proper, hopened.opens, hopened.leads, ?_⟩
  · obtain ⟨before, last, hrow⟩ : ∃ before last, Slot.token p.token :: behind = before ++ [last] :=
      ⟨_, _, (List.dropLast_append_getLast (List.cons_ne_nil _ _)).symm⟩
    refine ⟨.gap :: before, last, by rw [hrow, List.cons_append], fun next token _ _ => ?_⟩
    cases last with
    | gap => exact .inl rfl
    | token last =>
      have hspans := hpads.spans
      rw [hrow, Slot.tokens_append] at hspans
      refine .inr ⟨last, rfl, arguments, placement, .inl rfl, fun span hspan => ?_⟩
      rw [hstop span hspan, hspans.previous_eq]
  · exact fun tokens p' q' hfilled hspans hedge =>
      hopened.written _ _ _ hfilled hspans (.inl (hedge.value_eq (by decide)))

end

end Padded

end LuaSyntax
