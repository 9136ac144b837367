import LuaSyntax.Proofs.Grammar.Accepted
import LuaSyntax.Proofs.Grammar.Complete.Chunk
import LuaSyntax.Proofs.Grammar.Scoping.Unplaced
import LuaSyntax.Proofs.Grammar.Tacit.Statement
import LuaSyntax.Proofs.Reading.Layout
import LuaSyntax.Proofs.Writing.Carried.Statement

/-!
# Layout does not matter

The grammar reads what its tokens are and not where they stand, but for one rule: in dialects without flexible line
ends the arguments of a call may not begin on a new line. So the lexemes of an accepted source can be joined by any
separators, as long as no token comes to stand on a line of its own where that rule holds, and the tree remains the
same but for places.
-/

namespace LuaSyntax

open Grammar

/-! ## The same tokens at other places -/

/-- Points before the same tokens, which stand elsewhere in the second row: all on one line, unless lines may be
broken. -/
structure Point.Relaid (broken : Bool) (p p' : Point) : Prop where
  rest : p'.rest.map Token.spelled = p.rest.map Token.spelled
  last : p'.last.spelled = p.last.spelled
  goesOn : broken = false → (p'.previous :: p'.rest).IsChain Token.GoesOn

namespace Point.Relaid

variable {broken : Bool} {p p' : Point} (h : p.Relaid broken p')

include h

/-- The token at a point is spelled alike. -/
theorem token : p'.token.spelled = p.token.spelled := by
  have hfirst (p : Point) : p.token.spelled = (p.rest.map Token.spelled).headD p.last.spelled := by
    rw [Point.token]
    cases p.rest <;> rfl
  rw [hfirst, hfirst, h.rest, h.last]

/-- Behind the tokens at two points the same tokens stand. -/
theorem step : p.step.Relaid broken p'.step where
  rest := by
    show p'.rest.tail.map Token.spelled = p.rest.tail.map Token.spelled
    rw [List.map_tail, List.map_tail, h.rest]
  last := h.last
  goesOn hbroken := by
    have hchain := h.goesOn hbroken
    cases hrest : p'.rest with
    | nil => simp [Point.step, hrest]
    | cons token rest =>
      rw [hrest] at hchain
      simpa [Point.step, Point.token, hrest] using hchain.of_cons

/-- A token that is not the end stands behind the one before it. -/
theorem token_goesOn (hbroken : broken = false) (hend : p'.token.isEnd = false) :
    p'.previous.GoesOn p'.token := by
  have hchain := h.goesOn hbroken
  cases hrest : p'.rest with
  | nil =>
    rw [Point.token, hrest] at hend
    exact absurd (p'.isEnd_last.symm.trans hend) (by decide)
  | cons token rest =>
    rw [hrest] at hchain
    rw [Point.token, hrest]
    exact (List.isChain_cons_cons.mp hchain).1

end Point.Relaid

/-- A dialect carries what is written over to the same tokens elsewhere, on one line unless its lines may be broken.
-/
theorem Dialect.carries_relaid (dialect : Dialect) :
    Carries dialect dialect (Point.Relaid (dialect.has .flexibleLineEnd)) where
  features _ _ := rfl
  typed := id
  value h := congrArg Prod.fst h.token
  lexeme h := congrArg Prod.snd h.token
  ahead h := congrArg Prod.fst h.step.token
  line hbroken h hfaces _ := by
    refine h.token_goesOn hbroken ?_
    rw [Token.isEnd_of_spelled h.token, Token.isEnd, hfaces]
    rfl
  step h _ := h.step

/-! ## Chunks -/

variable {options : ParseOptions} {chunk chunk' : Chunk}

/-- Where scopes are not tracked, chunks in which the same was written are the same but for places. -/
theorem Chunk.unplaced_eq_of_mute (h : Mute chunk) (h' : Mute chunk')
    (hbody : chunk.body.erase .annotations = chunk'.body.erase .annotations) : chunk.unplaced = chunk'.unplaced := by
  have hsilent : Erasable.erase .placements chunk.body = Erasable.erase .placements chunk'.body :=
    (h.1.trans hbody).trans h'.1.symm
  have hglobals : Erasable.erase .placements chunk.globals = Erasable.erase .placements chunk'.globals := by
    rw [h.2, h'.2]
  exact congrArg₂ (Chunk.mk · none · .none) hsilent hglobals

/-- What the tree of an accepted source says besides places follows from what was written. -/
theorem unplaced_eq_of_parse {source source' : Text} (h : parse options source = .ok chunk)
    (h' : parse options source' = .ok chunk')
    (hbody : chunk.body.erase .annotations = chunk'.body.erase .annotations) : chunk.unplaced = chunk'.unplaced := by
  cases htracks : options.trackScopes with
  | true => exact Chunk.unplaced_eq_of_resolved (resolve_forget htracks h) (resolve_forget htracks h') hbody
  | false => exact Chunk.unplaced_eq_of_mute (mute_of_parse htracks h) (mute_of_parse htracks h') hbody

/-- A chunk that is written in some tokens is read from the same tokens elsewhere. -/
theorem Grammar.run_relaid {source source' : Text} {deliveries deliveries' : List Delivery} {last last' : Delivery}
    (hlast : last.token.isEnd = true) (hlast' : last'.token.isEnd = true)
    (hrelaid : (Point.before (deliveries.map Delivery.token) last.token hlast).Relaid
      (options.has .flexibleLineEnd) (.before (deliveries'.map Delivery.token) last'.token hlast'))
    (hrun : (run options source ⟨deliveries, .ok last⟩).result = .ok chunk) :
    ∃ chunk', (run options source' ⟨deliveries', .ok last'⟩).result = .ok chunk' ∧ Same chunk chunk' := by
  obtain ⟨⟨q, hwritten, -⟩, hwellFormed⟩ := run_reads hlast hrun
  obtain ⟨q', -, hwritten'⟩ := hwritten.carried options.dialect.carries_relaid hrelaid
  exact run_gives hlast' hwritten' hwellFormed

/-- The lexemes of an accepted source can be joined by any separators: they are the same tokens again, and they are
accepted with the same tree but for places and comments. -/
theorem parse_joined (options : ParseOptions) (source : Text) (chunk : Chunk)
    (h : parse options source = .ok chunk) :
    ∃ tokens, tokenize options source = .ok tokens ∧ ∀ text,
      Joined (options.has .flexibleLineEnd) (tokens.dropLast.map fun token => token.lexeme.toList) text →
      ∃ tokens' chunk', tokenize options text = .ok tokens' ∧
        tokens'.map Token.spelled = tokens.map Token.spelled ∧
        parse options text = .ok chunk' ∧ chunk'.unplaced = chunk.unplaced := by
  obtain ⟨last, hending, hlast⟩ := feed_of_parse h
  refine ⟨(Lexer.feed options source).deliveries.map Delivery.token ++ [last.token],
    congrArg (Except.map _) hending, fun text hjoined => ?_⟩
  rw [List.dropLast_concat, List.map_map] at hjoined
  obtain ⟨deliveries', last', hfeed', hlast', hspelled', hspellings, hchain⟩ :=
    Lexer.feed_joined hending hlast hjoined
  have hrest : (deliveries'.map Delivery.token).map Token.spelled =
      ((Lexer.feed options source).deliveries.map Delivery.token).map Token.spelled := by
    rw [List.map_map, List.map_map]
    exact hspellings
  obtain ⟨chunk', hrun', hsame⟩ :=
    run_relaid hlast hlast' ⟨hrest, hspelled', hchain⟩ (run_of_parse h hending)
  have hparse : parse options text = .ok chunk' := by
    rw [parse, parseWithEvents, hfeed']
    exact hrun'
  have hbody : chunk'.body.erase .annotations = chunk.body.erase .annotations := by
    injection hsame.symm
  refine ⟨deliveries'.map Delivery.token ++ [last'.token], chunk', ?_, ?_, hparse,
    unplaced_eq_of_parse hparse h hbody⟩
  · rw [tokenize, hfeed']
    rfl
  · rw [List.map_append, List.map_append, hrest, List.map_singleton, List.map_singleton, hspelled']

/-- Where lines may be broken, a comment may stand between a function and its arguments. -/
theorem parse_joined_call : ∃ chunk chunk',
    parse { dialect := .lua52, trackScopes := true } "f(x)".toList = .ok chunk ∧
      parse { dialect := .lua52, trackScopes := true } "f -- of x\n( x )".toList = .ok chunk' ∧
      chunk'.unplaced = chunk.unplaced := by
  have haccepted : (parse { dialect := .lua52, trackScopes := true } "f(x)".toList).toBool = true := by
    decide +kernel
  have hlexemes : ((tokenize { dialect := .lua52, trackScopes := true } "f(x)".toList).toOption.map
      fun tokens => tokens.dropLast.map fun token => token.lexeme.toList) = some [['f'], ['('], ['x'], [')']] := by
    decide +kernel
  have hspace : Separator true [' '] := ⟨⟨' ', [], rfl, by decide⟩, .cons (.blank rfl) .nil⟩
  have hbody : Text.OneLine " of x".toList := by
    simp [Text.OneLine, Text.isLineEnd]
  have hcomment : Separator true " -- of x\n".toList := by
    have hfiller : Filler true (['-', '-'] ++ " of x".toList ++ ['\n']) :=
      .lineComment rfl hbody (fun _ hprefix => absurd (List.cons_prefix_cons.mp hprefix).1 (by decide)) rfl
    exact ⟨⟨' ', _, rfl, by decide⟩, .cons (.blank rfl) (.cons hfiller .nil)⟩
  have hjoined : Joined true [['f'], ['('], ['x'], [')']] "f -- of x\n( x )".toList :=
    .cons ['f'] hcomment (.cons ['('] hspace (.cons ['x'] hspace (.last [')'])))
  cases hparse : parse { dialect := .lua52, trackScopes := true } "f(x)".toList with
  | error error =>
    rw [hparse] at haccepted
    cases haccepted
  | ok chunk =>
    obtain ⟨tokens, htokens, hlayouts⟩ := parse_joined _ _ chunk hparse
    rw [htokens] at hlexemes
    rw [← Option.some.inj hlexemes] at hjoined
    obtain ⟨_, chunk', -, -, hparse', hsame⟩ := hlayouts _ hjoined
    exact ⟨chunk, chunk', rfl, hparse', hsame⟩

end LuaSyntax
