import LuaSyntax.Proofs.Grammar.Depth.Levels
import LuaSyntax.Proofs.Grammar.Lockstep.Statement

/-!
# Beginnings of a feed

What the grammar says of some tokens it says of every feed that begins with them, unless it has come
to where they end. A parse of the beginning is paired with a parse of the whole: both stand at the
same token until the shorter feed has run out. The token ahead is the last that they may disagree on.
-/

namespace LuaSyntax

namespace Feed

/-- A feed of which nothing but the end of the input is left. -/
def Spent (feed : Feed) : Prop :=
  feed.deliveries = [] ∧ ∃ last, feed.ending = .ok last ∧ last.token.isEnd = true

/-- A feed that is spent gives the end of the input, and is spent behind it. -/
theorem Spent.next {feed : Feed} (h : feed.Spent) :
    ∃ last rest, feed.next = .ok (last, rest) ∧ last.token.isEnd = true ∧ rest.Spent := by
  obtain ⟨hdeliveries, last, hending, hend⟩ := h
  refine ⟨last, ⟨[], .ok { last with comments := [] }⟩, ?_, hend, rfl, _, rfl, hend⟩
  rw [Feed.next, hdeliveries, hending]
  rfl

end Feed

namespace Grammar

open Rule

/-- A state that has come to where the beginning ends. -/
structure State.Out (s : State) : Prop where
  token : s.token.isEnd = true
  lookahead : s.lookahead.isEnd = true
  feed : s.feed.Spent

/-- The first feed still holds some deliveries, and the second those and others. -/
def State.Shares (turns : Nat) (s t : State) : Prop :=
  s.lookahead = t.lookahead ∧ ∃ shared last more ending, s.feed = ⟨shared, .ok last⟩ ∧
    t.feed = ⟨shared ++ more, ending⟩ ∧ last.token.isEnd = true ∧ s.taken + shared.length + 1 < turns

/-- The first feed holds nothing more, and the token ahead is its end. -/
def State.Last (turns : Nat) (s : State) : Prop :=
  s.lookahead.isEnd = true ∧ s.feed.Spent ∧ s.taken < turns

/-- Two states that have come equally far, one in a beginning and one in the whole. -/
structure State.Begins (turns : Nat) (s t : State) : Prop where
  token : s.token = t.token
  previous : s.previous = t.previous
  jumps : Same s.jumps t.jumps
  rest : s.Shares turns t ∨ s.Last turns

/-- A parse of a beginning and a parse of the whole. -/
def Pairing.begins (left right : Context) : Pairing where
  left
  right
  Related := State.Begins left.turns
  Escaped := State.Out
  Lenient := True

/-- Taking a token does not bring a parse back that is out. -/
theorem State.Out.advance {context : Context} {s : State} (h : s.Out) :
    (Rule.advance context s).2.Out := by
  obtain ⟨last, rest, hnext, hend, hspent⟩ := h.feed.next
  rw [advance_eq_ok.mpr ⟨last, rest, hnext, rfl⟩]
  exact ⟨h.lookahead, hend, hspent⟩

/-- Behind its last token a parse of the beginning is out. -/
theorem State.Last.advance {context : Context} {turns : Nat} {s : State} (h : s.Last turns) :
    (Rule.advance context s).2.Out := by
  obtain ⟨hend, hspent, -⟩ := h
  obtain ⟨last, rest, hnext, hlast, hrest⟩ := hspent.next
  rw [advance_eq_ok.mpr ⟨last, rest, hnext, rfl⟩]
  exact ⟨hend, hlast, hrest⟩

/-- Taking a token either keeps both parses together or leaves the first one out. -/
theorem State.Begins.advance {left right : Context} {s t : State} (h : s.Begins left.turns t) :
    (Pairing.begins left right).Meet Any (Rule.advance left s) (Rule.advance right t) := by
  obtain ⟨htoken, -, hjumps, ⟨hahead, shared, last, more, ending, hs, ht, hlast, hturns⟩ | hout⟩ := h
  · cases shared with
    | nil =>
      have hleft : Rule.advance left s =
          (.ok (), shift s last ⟨[], .ok { last with comments := [] }⟩) :=
        advance_eq_ok.mpr ⟨_, _, by rw [hs]; rfl, rfl⟩
      rw [hleft]
      cases hright : Rule.advance right t with
      | mk y t' =>
        cases y with
        | error error => exact .alone trivial
        | ok value =>
          obtain ⟨delivery, feed, -, rfl⟩ := advance_eq_ok.mp hright
          have hspent : Feed.Spent ⟨[], .ok { last with comments := [] }⟩ := ⟨rfl, _, rfl, hlast⟩
          exact .both trivial ⟨hahead, htoken, hjumps, .inr ⟨hlast, hspent, hturns⟩⟩
    | cons delivery shared =>
      have hleft : Rule.advance left s = (.ok (), shift s delivery ⟨shared, .ok last⟩) :=
        advance_eq_ok.mpr ⟨_, _, by rw [hs]; rfl, rfl⟩
      have hright : Rule.advance right t = (.ok (), shift t delivery ⟨shared ++ more, ending⟩) :=
        advance_eq_ok.mpr ⟨_, _, by rw [ht]; rfl, rfl⟩
      rw [hleft, hright]
      refine .both trivial ⟨hahead, htoken, hjumps, .inl ⟨rfl, shared, last, more, ending, rfl, rfl,
        hlast, ?_⟩⟩
      rw [List.length_cons] at hturns
      show s.taken + 1 + shared.length + 1 < left.turns
      omega
  · exact .escaped hout.advance

/-- Options of the same dialect are a sound pair, if the second has no fewer turns. -/
theorem Pairing.sound_begins {left right : Context}
    (hdialect : left.options.dialect = right.options.dialect) (hturns : left.turns ≤ right.turns) :
    (Pairing.begins left right).Sound where
  dialect_eq := hdialect
  turns := by
    refine .inr ⟨hturns, fun s t h => ?_⟩
    rcases h.rest with ⟨-, _, _, _, _, -, -, -, hlt⟩ | ⟨-, -, hlt⟩
    · show s.taken < left.turns
      omega
    · exact hlt
  alike h := ⟨h.token ▸ .refl _, h.previous ▸ .refl _, h.jumps⟩
  line h _ := by rw [h.token, h.previous]
  ahead := by
    intro s t h
    rcases h.rest with ⟨hahead, -⟩ | hout
    · exact .inl (hahead ▸ .refl _)
    · exact .inr hout.advance
  put h _ _ _ _ _ _ hjumps := ⟨h.token, h.previous, hjumps, h.rest⟩
  settle h _ := ⟨h.token, h.token, h.jumps, h.rest⟩
  advance h := h.advance
  escaped_put h _ _ _ := ⟨h.token, h.lookahead, h.feed⟩
  escaped_settle h := ⟨h.token, h.lookahead, h.feed⟩
  escaped_advance h := h.advance

/-- If a beginning is wrong before it ends, the whole is wrong. -/
theorem run_of_beginning {options : ParseOptions} {source source' : Text}
    {deliveries more : List Delivery} {last : Delivery} {ending : Except ParseError Delivery}
    {error : ParseError} (hlast : last.token.isEnd = true)
    (herror : (run options source ⟨deliveries, .ok last⟩).result = .error error)
    (hend : (run options source ⟨deliveries, .ok last⟩).atEnd = false) :
    ∃ error', (run options source' ⟨deliveries ++ more, ending⟩).result = .error error' := by
  have hsound : (Pairing.begins (.ofFeed options source ⟨deliveries, .ok last⟩)
      (.ofFeed options source' ⟨deliveries ++ more, ending⟩)).Sound :=
    Pairing.sound_begins rfl (by simp [Context.ofFeed, Feed.size])
  have hinitial : (State.initial options ⟨deliveries, .ok last⟩).Begins (deliveries.length + 3)
      (.initial options ⟨deliveries ++ more, ending⟩) :=
    ⟨rfl, rfl, .refl _, .inl ⟨rfl, deliveries, last, more, ending, rfl, rfl, hlast,
      by simp [State.initial]⟩⟩
  have hstable := @Pairing.stable_chunk _ hsound nestingLimit
  rw [run_eq_levels] at herror hend ⊢
  exact (hstable.meet _ _ hinitial).of_error herror fun hout =>
    Bool.false_ne_true (hend.symm.trans hout.token)

/-- Tokens that are refused, otherwise than for being too few, are refused in front of all others.
Whether the error itself says that it was caused by the end does not matter. -/
theorem refused_of_beginning {options : ParseOptions} {source source' : Text}
    {tokens others : List Token} {last last' : Token} {error : ParseError} (hlast : last.isEnd = true)
    (herror : (run options source (.ofTokens tokens last)).result = .error error)
    (hend : (run options source (.ofTokens tokens last)).atEnd = false) :
    ∃ error', (run options source' (.ofTokens (tokens ++ others) last')).result =
      .error error' := by
  rw [Feed.ofTokens, List.map_append]
  have hdelivered : (Delivery.mk last []).token.isEnd = true := hlast
  exact run_of_beginning hdelivered herror hend

/-- No statement begins with `end`, so a name behind it does not help. -/
theorem refused_of_beginning_end :
    (run {} [] (.ofTokens [⟨.keyword .endWord, .start, .start, "end"⟩] (.endOfInput .start))).atEnd =
      false ∧
    ∃ error, (run {} [] (.ofTokens
      ([⟨.keyword .endWord, .start, .start, "end"⟩] ++ [⟨.identifier "x", .start, .start, "x"⟩])
      (.endOfInput .start))).result = .error error := by
  have hend : (run {} [] (.ofTokens [⟨.keyword .endWord, .start, .start, "end"⟩]
      (.endOfInput .start))).atEnd = false := by
    decide +kernel
  have hrefused : (run {} [] (.ofTokens [⟨.keyword .endWord, .start, .start, "end"⟩]
      (.endOfInput .start))).result.toOption.isSome = false := by
    decide +kernel
  refine ⟨hend, ?_⟩
  generalize hresult : (run {} [] (.ofTokens [⟨.keyword .endWord, .start, .start, "end"⟩]
      (.endOfInput .start))).result = result at hrefused
  cases result with
  | ok chunk => cases hrefused
  | error error => exact refused_of_beginning rfl hresult hend

end Grammar

end LuaSyntax
