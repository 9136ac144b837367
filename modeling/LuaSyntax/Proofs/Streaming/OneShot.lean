import LuaSyntax.Proofs.Grammar.Endings
import LuaSyntax.Proofs.Streaming.Kept

/-!
# A stream and one parse of the whole

However an input is cut into pieces, and whatever was answered to them, the end of the input gives what
one parse of the whole source gives: the same chunk or the same error, and the same events in the same
order. Only if the source holds something that is no token do the two differ. The stream reports that
at once, and a parse of the whole reports it when it gets there, unless something else is wrong before.
-/

namespace LuaSyntax

open Grammar (run)

variable {options : ParseOptions} {source : Text} {error : ParseError}

/-- A text that does not tokenize ends in its error. -/
theorem tokenize_eq_error (h : tokenize options source = .error error) :
    (Lexer.feed options source).ending = .error error := by
  unfold tokenize Feed.tokens at h
  cases hending : (Lexer.feed options source).ending with
  | error error' =>
    rw [hending] at h
    cases h
    rfl
  | ok last =>
    rw [hending] at h
    cases h

/-- A text that tokenizes ends in a token. -/
theorem tokenize_eq_ok {tokens : List Token} (h : tokenize options source = .ok tokens) :
    ∃ last, (Lexer.feed options source).ending = .ok last := by
  unfold tokenize Feed.tokens at h
  cases hending : (Lexer.feed options source).ending with
  | error error =>
    rw [hending] at h
    cases h
  | ok last => exact ⟨last, rfl⟩

/-- The tokens of a source before its end. -/
theorem isEnd_of_feed (options : ParseOptions) (source : Text) :
    ∀ delivery ∈ (Lexer.feed options source).deliveries, delivery.token.isEnd = false := by
  obtain ⟨text, hsited, -⟩ := Lexer.sited_start options source
  obtain ⟨last, hreads, -⟩ := hsited.reads_reading
  rw [Lexer.feed_eq_reading]
  exact hreads.isEnd

/-- A source with something in it that is no token is no chunk. -/
theorem parse_of_tokenize (h : tokenize options source = .error error) :
    ∃ error', parse options source = .error error' := by
  have hending := tokenize_eq_error h
  unfold parse parseWithEvents
  rw [show Lexer.feed options source = ⟨(Lexer.feed options source).deliveries, .error error⟩ by
    rw [← hending]]
  exact Grammar.run_of_error (isEnd_of_feed options source)

namespace Stream

variable {stream : Stream} {deliveries : List Delivery}

/-- What a stream keeps is the beginning of what is read of its source. -/
theorem Holds.feed_source (h : stream.Holds deliveries) :
    Lexer.feed stream.options stream.source =
      { stream.lexer.reading with deliveries := deliveries ++ stream.lexer.reading.deliveries } := by
  obtain ⟨text, hsited, -⟩ := Lexer.sited_start stream.options stream.source
  rw [Lexer.feed_eq_reading]
  exact h.reads_self.reading_eq hsited

/-- A stream that reads to its end gives the run over its tokens. -/
theorem finish_of_ok {stream' : Stream} {text : Text} {ending : Token}
    (h : readRest (stream.extend text).bound (stream.extend text).lexer (stream.extend text) =
      (.ok ending, stream')) :
    stream.finish text =
      ((run stream'.options stream'.source (stream'.feed ending)).result,
        (run stream'.options stream'.source (stream'.feed ending)).events) := by
  unfold extend at h
  simp only [Stream.finish, h]

/-- A stream that fails to read gives the error and no events. -/
theorem finish_of_error {stream' : Stream} {text : Text}
    (h : readRest (stream.extend text).bound (stream.extend text).lexer (stream.extend text) =
      (.error error, stream')) : stream.finish text = (.error error, []) := by
  unfold extend at h
  simp only [Stream.finish, h]

/-- The end of the input is answered with the result of a parse of the whole, or with the first thing
in it that is no token. -/
theorem Holds.finish (h : stream.Holds deliveries) (text : Text) :
    (∃ error, (Lexer.feed stream.options (stream.source ++ text)).ending = .error error ∧
        stream.finish text = (.error error, [])) ∨
      ∃ last, (Lexer.feed stream.options (stream.source ++ text)).ending = .ok last ∧
        stream.finish text =
          ((parseWithEvents stream.options (stream.source ++ text)).result,
            (parseWithEvents stream.options (stream.source ++ text)).events) := by
  have hfeed : Lexer.feed stream.options (stream.source ++ text) = _ := (h.extend text).feed_source
  obtain ⟨rest, hsited, hl⟩ := (h.extend text).sited
  have hfuel : rest.length < (stream.extend text).bound := by
    unfold bound
    omega
  have hspec := readRest_spec hsited hfuel (h.extend text).tokens_eq (h.extend text).comments_eq
  cases hread : readRest (stream.extend text).bound (stream.extend text).lexer (stream.extend text) with
  | mk result stream' =>
    rw [hread] at hspec
    rcases hspec with ⟨error, hending, rfl⟩ | ⟨last, hending, rfl, hoptions, hsource, hrest⟩
    · left
      refine ⟨error, ?_, finish_of_error hread⟩
      rw [hfeed]
      exact hending
    · right
      refine ⟨last, ?_, ?_⟩
      · rw [hfeed]
        exact hending
      · rw [finish_of_ok hread, hoptions, hsource, hrest, parseWithEvents, hfeed, ← hending]
        rfl

end Stream

/-- However an input is cut into pieces, its end is answered as one parse of the whole answers. -/
theorem finish_fed (options : ParseOptions) (pieces : List Text) (last : Text) :
    match tokenize options (pieces.flatten ++ last) with
    | .ok _ => (Stream.fed options pieces).finish last =
        ((parseWithEvents options (pieces.flatten ++ last)).result,
          (parseWithEvents options (pieces.flatten ++ last)).events)
    | .error error => ((Stream.fed options pieces).finish last).1 = .error error ∧
        ∃ error', parse options (pieces.flatten ++ last) = .error error' := by
  obtain ⟨deliveries, h, hoptions, hsource⟩ := Stream.holds_fed options pieces
  have hfinish := h.finish last
  rw [hoptions, hsource] at hfinish
  cases htokens : tokenize options (pieces.flatten ++ last) with
  | ok tokens =>
    obtain ⟨ending, hending⟩ := tokenize_eq_ok htokens
    rcases hfinish with ⟨error, herror, -⟩ | ⟨-, -, hfinish⟩
    · rw [hending] at herror
      cases herror
    · exact hfinish
  | error error =>
    have hending := tokenize_eq_error htokens
    rcases hfinish with ⟨error', herror, hfinish⟩ | ⟨ending, hok, -⟩
    · obtain rfl := Except.error.inj (hending.symm.trans herror)
      exact ⟨by rw [hfinish], parse_of_tokenize htokens⟩
    · rw [hending] at hok
      cases hok

end LuaSyntax
