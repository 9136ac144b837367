import LuaSyntax.Proofs.Grammar.Beginnings
import LuaSyntax.Proofs.Streaming.OneShot

/-!
# What a stream answers

A piece of input is answered by what was kept of the input so far. That it is wrong is then true of
every input that goes on from there, with one exception: a token may have been cut short whose
beginning is no token. The tilde is the beginning of an operator everywhere, and digits with a letter
behind them may be the beginning of an integer with a suffix. Such a beginning is refused, although it
could be finished.

That the input is complete is said of what was kept only. At the end of the input there may be a token
that was not kept, or the beginning of one, so the input itself is a chunk only if nothing of that kind
is left, or a token with which it is complete as well.
-/

namespace LuaSyntax.Stream

open Grammar (run)

variable {options : ParseOptions} {stream : Stream} {deliveries : List Delivery} {error : ParseError}
  {token : Token} {after : Lexer} {text : Text}

/-! ## Progress -/

/-- Whether a stream keeps some deliveries, and no comments behind them. -/
def Keeps (stream : Stream) (deliveries : List Delivery) : Prop :=
  ∀ ending, stream.feed ending = ⟨deliveries, .ok ⟨ending, []⟩⟩

/-- What a stream holds it keeps. -/
theorem Holds.keeps (h : stream.Holds deliveries) : stream.Keeps deliveries := fun _ =>
  feed_eq h.tokens_eq (by rw [h.comments_eq, List.map_nil, List.append_nil])

variable (token after) in
/-- A stream that holds deliveries keeps one more. -/
theorem Holds.keeps_keep (h : stream.Holds deliveries) :
    (stream.keep token after).Keeps (deliveries ++ [⟨token, after.comments⟩]) := fun _ =>
  feed_eq (tokens_keep _ _ h.tokens_eq)
    (by rw [comments_keep _ _ h.tokens_eq h.comments_eq, List.map_nil, List.append_nil])

/-- The parse of what is kept. -/
def outcome (stream : Stream) (deliveries : List Delivery) : Grammar.Outcome :=
  run stream.options stream.source ⟨deliveries, .ok ⟨.endOfInput stream.checkpoint, []⟩⟩

/-- A stream is complete exactly when what it keeps parses. -/
theorem Keeps.progress_eq_complete (h : stream.Keeps deliveries) :
    stream.progress = .ok .complete ↔ ∃ chunk, (stream.outcome deliveries).result = .ok chunk := by
  unfold progress
  rw [h, ← outcome]
  generalize stream.outcome deliveries = outcome
  obtain ⟨result, events, atEnd, taken⟩ := outcome
  cases result with
  | ok chunk => exact ⟨fun _ => ⟨chunk, rfl⟩, fun _ => rfl⟩
  | error error =>
    constructor
    · intro heq
      simp only at heq
      split at heq <;> cases heq
    · rintro ⟨chunk, heq⟩
      cases heq

/-- What is kept is wrong only if it is wrong before its end. -/
theorem Keeps.progress_eq_error (h : stream.Keeps deliveries)
    (herror : stream.progress = .error error) :
    (stream.outcome deliveries).result = .error error ∧
      (stream.outcome deliveries).atEnd = false := by
  unfold progress at herror
  rw [h, ← outcome] at herror
  generalize stream.outcome deliveries = outcome at herror
  obtain ⟨result, events, atEnd, taken⟩ := outcome
  cases result with
  | ok chunk => cases herror
  | error error' =>
    simp only at herror
    split at herror
    · cases herror
    · next hend =>
      cases herror
      exact ⟨rfl, (Bool.or_eq_false_iff.mp (Bool.eq_false_iff.mpr hend)).2⟩

/-! ## Failure -/

/-- What is wrong with the tokens that were kept stays wrong. -/
theorem Holds.parse_of_progress (h : stream.Holds deliveries)
    (herror : stream.progress = .error error) (more : Text) :
    ∃ error', parse stream.options (stream.source ++ more) = .error error' := by
  obtain ⟨hresult, hend⟩ := h.keeps.progress_eq_error herror
  have hfeed : Lexer.feed stream.options (stream.source ++ more) = _ := (h.extend more).feed_source
  unfold parse parseWithEvents
  rw [hfeed]
  exact Grammar.run_of_beginning rfl hresult hend

/-- Where there is no token, more than the beginning of a first line has been read. -/
theorem ne_of_error (h : stream.lexer.Sited text) (hn : stream.lexer.next = (.error error, after))
    (hend : error.endOfInput = false) : text ≠ [] ∧ text ≠ ['#'] := by
  obtain ⟨-, fault, hr, -⟩ := Lexer.next_eq_error h.rest_eq hn hend
  constructor
  · rintro rfl
    cases hr
  · rintro rfl
    cases hr

/-- What is no token stays none, unless a token was cut short. -/
theorem Holds.parse_of_error (h : stream.Holds deliveries)
    (hn : stream.lexer.next = (.error error, after)) (hend : error.endOfInput = false)
    (hcut : ¬ stream.lexer.CutShort) (more : Text) :
    ∃ error', parse stream.options (stream.source ++ more) = .error error' := by
  obtain ⟨text, hsited, -⟩ := h.sited
  obtain ⟨hclosed, -⟩ := Lexer.next_eq_error hsited.rest_eq hn hend
  obtain ⟨hne, hhash⟩ := ne_of_error hsited hn hend
  obtain ⟨error', after', hlater⟩ := Lexer.next_error_grow more hsited hn hend
    fun hc => hcut ⟨text, hsited.rest_eq, hclosed, hc⟩
  have hfeed : Lexer.feed stream.options (stream.source ++ more) = _ := (h.extend more).feed_source
  have hfails : tokenize stream.options (stream.source ++ more) = .error error' := by
    rw [tokenize, hfeed, lexer_extend hsited hne hhash, Lexer.reading_of_error hlater]
    rfl
  exact parse_of_tokenize hfails

/-- What was cut short can be finished, and then nothing is left that is no token. -/
theorem Holds.tokenize_of_cutShort (h : stream.Holds deliveries) (hcut : stream.lexer.CutShort) :
    ∃ more tokens, tokenize stream.options (stream.source ++ more) = .ok tokens := by
  obtain ⟨text, hsited, -⟩ := h.sited
  obtain ⟨text', hrest, hclosed, hcut⟩ := hcut
  obtain rfl := Option.some.inj (hsited.rest_eq.symm.trans hrest)
  obtain ⟨more, token, after, hnext, hend, hafter⟩ := Lexer.next_completed hsited hclosed hcut
  have hne : text ≠ [] := by
    rintro rfl
    rcases hcut with ⟨-, hcut⟩ | ⟨hcut, -⟩ <;> cases hcut
  have hhash : text ≠ ['#'] := by
    rintro rfl
    rcases hcut with ⟨-, hcut⟩ | ⟨hcut, -⟩
    · exact absurd hcut (by decide)
    · exact absurd hcut (by decide)
  obtain ⟨last, -, hreading⟩ := (hsited.grow more).reading_of_last hnext hend hafter
  have hfeed : Lexer.feed stream.options (stream.source ++ more) = _ := (h.extend more).feed_source
  refine ⟨more, List.map Delivery.token (deliveries ++ [⟨token, after.comments⟩]) ++ [last.token], ?_⟩
  rw [tokenize, hfeed, lexer_extend hsited hne hhash, hreading]
  rfl

/-! ## Completeness -/

/-- Whether nothing is left behind what is kept but the end of the input, or one token with which the
input is complete as well. -/
def Settled (stream : Stream) : Prop :=
  ∃ token after, stream.lexer.next = (.ok token, after) ∧
    (token.isEnd = true ∨ (stream.keep token after).progress = .ok .complete)

/-- Nothing is left behind a token that may grow. -/
theorem sited_nil_of_mayGrow (h : stream.lexer.Sited text)
    (hn : stream.lexer.next = (.ok token, after)) (hend : token.isEnd = false)
    (hgrow : stream.mayGrow token = true) : after.Sited [] := by
  obtain ⟨rest, hrest, -⟩ := h.next hn hend
  have hsize := hrest.size_source
  rw [Lexer.source_next h.rest_eq hn, source_lexer, Lexer.place_next h.rest_eq hn] at hsize
  unfold mayGrow at hgrow
  rw [hend, Bool.false_or, decide_eq_true_iff] at hgrow
  cases rest with
  | nil => exact hrest
  | cons c rest =>
    have hpos := c.utf8Size_pos
    rw [Text.size_cons] at hsize
    omega

/-- The end of the input is the same wherever it is. -/
theorem same_endOfInput {lexer : Lexer} (h : lexer.rest = some text)
    (hn : lexer.next = (.ok token, after)) (hend : token.isEnd = true) (place : Place) :
    Same token (.endOfInput place) := by
  obtain ⟨-, value, length, hr, rfl, -⟩ := (Lexer.next_eq_ok h).mp hn
  rcases Lexer.length_of_next h hn with ⟨-, hnil⟩ | ⟨hnot, -⟩
  · rw [hnil] at hr
    cases hr
    rfl
  · rw [hend] at hnot
    cases hnot

/-- A feed that ends with the end of the input holds a chunk if one does that ends elsewhere. -/
theorem run_iff_of_ending {options : ParseOptions} {source source' : Text} {last : Delivery}
    {place : Place} (hlast : last.token.isEnd = true)
    (hsame : Same last.token (.endOfInput place)) :
    (∃ chunk, (run options source ⟨deliveries, .ok last⟩).result = .ok chunk) ↔
      ∃ chunk, (run options source' ⟨deliveries, .ok ⟨.endOfInput place, []⟩⟩).result = .ok chunk := by
  constructor
  · rintro ⟨chunk, hchunk⟩
    exact (Grammar.run_of_ending hlast hsame hchunk).imp fun _ h => h.1
  · rintro ⟨chunk, hchunk⟩
    exact (Grammar.run_of_ending rfl hsame.symm hchunk).imp fun _ h => h.1

/-- A stream that stopped where it may go on is a chunk if it is settled and what it keeps is one. -/
theorem Holds.parse_iff (h : stream.Holds deliveries) (hstopped : Stopped stream (.ok ()))
    (hcomplete : stream.progress = .ok .complete) :
    (∃ chunk, parse stream.options stream.source = .ok chunk) ↔ stream.Settled := by
  obtain ⟨text, hsited, -⟩ := h.sited
  have hfeed := h.feed_source
  generalize hresult : Except.ok () = result at hstopped
  cases hstopped with
  | wrong => cases hresult
  | @unfinished error after hn hend =>
    have herror : tokenize stream.options stream.source = .error error := by
      rw [tokenize, hfeed, Lexer.reading_of_error hn]
      rfl
    obtain ⟨error', hparse⟩ := parse_of_tokenize herror
    rw [hparse]
    constructor
    · rintro ⟨chunk, heq⟩
      cases heq
    · rintro ⟨token, after', hnext, -⟩
      rw [hn] at hnext
      cases hnext
  | @waiting token after hn hgrow =>
    unfold parse parseWithEvents
    rw [hfeed]
    cases hend : token.isEnd with
    | true =>
      rw [Lexer.reading_of_end hn hend, List.append_nil]
      have hsame := same_endOfInput hsited.rest_eq hn hend stream.checkpoint
      have hkept := h.keeps.progress_eq_complete.mp hcomplete
      constructor
      · exact fun _ => ⟨token, after, hn, .inl hend⟩
      · exact fun _ => (run_iff_of_ending hend hsame).mpr hkept
    | false =>
      have hafter := sited_nil_of_mayGrow hsited hn hend hgrow
      obtain ⟨ending, later, hnext, hlast⟩ := hafter.drain.next_nil
      have hsame := same_endOfInput hafter.drain.rest_eq hnext hlast after.place
      have hkept := (h.keeps_keep token after).progress_eq_complete
      rw [hsited.reading_of_token hn hend, Lexer.reading_of_end hnext hlast]
      constructor
      · intro hparse
        exact ⟨token, after, hn, .inr (hkept.mpr ((run_iff_of_ending hlast hsame).mp hparse))⟩
      · rintro ⟨token', after', hnext', hsettled⟩
        rw [hn] at hnext'
        cases hnext'
        rcases hsettled with hnot | hsettled
        · rw [hend] at hnot
          cases hnot
        · exact (run_iff_of_ending hlast hsame).mpr (hkept.mp hsettled)

end LuaSyntax.Stream

namespace LuaSyntax

/-- A piece of input that is refused stays wrong however the input goes on, unless a token was cut
short; and then the input can be continued so that there are only tokens in it. -/
theorem parse_of_write {options : ParseOptions} {pieces : List Text} {text : Text}
    {error : ParseError} (h : ((Stream.fed options pieces).write text).1 = .error error) :
    (¬ ((Stream.fed options pieces).write text).2.lexer.CutShort →
      ∀ more, ∃ error', parse options (pieces.flatten ++ text ++ more) = .error error') ∧
    (((Stream.fed options pieces).write text).2.lexer.CutShort →
      ∃ more tokens, tokenize options (pieces.flatten ++ text ++ more) = .ok tokens) := by
  obtain ⟨deliveries, hfed, hoptions, hsource⟩ := Stream.holds_fed options pieces
  obtain ⟨deliveries', hholds, hoptions', hsource', hanswer⟩ := hfed.write_spec text
  rw [hoptions] at hoptions'
  rw [hsource] at hsource'
  constructor
  · intro hcut more
    rw [← hoptions', ← hsource']
    rcases hanswer with ⟨-, hanswer⟩ | ⟨error', after, hn, hend, -⟩
    · exact hholds.parse_of_progress (hanswer.symm.trans h) more
    · exact hholds.parse_of_error hn hend hcut more
  · intro hcut
    rw [← hoptions', ← hsource']
    exact hholds.tokenize_of_cutShort hcut

/-- A block is not closed before it is opened. -/
theorem refused_end :
    ∃ error, ((Stream.fed {} []).write "end ".toList).1 = .error error ∧
      ¬ ((Stream.fed {} []).write "end ".toList).2.lexer.CutShort ∧
      ∀ more, ∃ error', parse {} ([].flatten ++ "end ".toList ++ more) = .error error' := by
  have hcut : ¬ ((Stream.fed {} []).write "end ".toList).2.lexer.CutShort := by
    have hrest : ((Stream.fed {} []).write "end ".toList).2.lexer.rest = some [' '] := by
      decide +kernel
    rintro ⟨text, htext, -, hcut⟩
    obtain rfl := Option.some.inj (hrest.symm.trans htext)
    rcases hcut with ⟨-, hcut⟩ | ⟨hcut, -⟩ <;> cases hcut
  cases hresult : ((Stream.fed {} []).write "end ".toList).1 with
  | ok progress =>
    have hnone : ((Stream.fed {} []).write "end ".toList).1.toOption = none := by decide +kernel
    rw [hresult] at hnone
    cases hnone
  | error error => exact ⟨error, rfl, hcut, (parse_of_write hresult).1 hcut⟩

/-- A tilde is refused although it may be the first half of an operator. -/
theorem refused_tilde :
    (∃ error, ((Stream.fed {} []).write "x=a~".toList).1 = .error error) ∧
      ∃ chunk, parse {} ("x=a~".toList ++ "=b".toList) = .ok chunk := by
  constructor
  · cases hresult : ((Stream.fed {} []).write "x=a~".toList).1 with
    | ok progress =>
      have hnone : ((Stream.fed {} []).write "x=a~".toList).1.toOption = none := by decide +kernel
      rw [hresult] at hnone
      cases hnone
    | error error => exact ⟨error, rfl⟩
  · cases hresult : parse {} ("x=a~".toList ++ "=b".toList) with
    | ok chunk => exact ⟨chunk, rfl⟩
    | error error =>
      have hsome : (parse {} ("x=a~".toList ++ "=b".toList)).toOption.isSome = true := by
        decide +kernel
      rw [hresult] at hsome
      cases hsome

/-- An input that is called complete is a chunk if the stream is settled then, and only if. -/
theorem parse_of_complete {options : ParseOptions} {pieces : List Text} {text : Text}
    (h : ((Stream.fed options pieces).write text).1 = .ok .complete) :
    (∃ chunk, parse options (pieces.flatten ++ text) = .ok chunk) ↔
      ((Stream.fed options pieces).write text).2.Settled := by
  obtain ⟨deliveries, hfed, hoptions, hsource⟩ := Stream.holds_fed options pieces
  obtain ⟨deliveries', hholds, hoptions', hsource', hanswer⟩ := hfed.write_spec text
  rw [hoptions] at hoptions'
  rw [hsource] at hsource'
  rcases hanswer with ⟨hstopped, hanswer⟩ | ⟨error, after, -, -, hanswer⟩
  · have hiff := hholds.parse_iff hstopped (hanswer.symm.trans h)
    rwa [hoptions', hsource'] at hiff
  · rw [h] at hanswer
    cases hanswer

/-- An empty block has arrived whole. -/
theorem complete_block :
    ((Stream.fed {} ["do ".toList]).write "end ".toList).1 = .ok .complete ∧
      ((∃ chunk, parse {} (["do ".toList].flatten ++ "end ".toList) = .ok chunk) ↔
        ((Stream.fed {} ["do ".toList]).write "end ".toList).2.Settled) := by
  have hcomplete : ((Stream.fed {} ["do ".toList]).write "end ".toList).1 = .ok .complete := by
    decide +kernel
  exact ⟨hcomplete, parse_of_complete hcomplete⟩

/-- A keyword that nothing follows is called a complete chunk, since it is not kept. -/
theorem complete_local :
    ((Stream.fed {} []).write "local".toList).1 = .ok .complete ∧
      ¬ ∃ chunk, parse {} "local".toList = .ok chunk := by
  refine ⟨by decide +kernel, ?_⟩
  rintro ⟨chunk, hchunk⟩
  have hnone : (parse {} "local".toList).toOption.isSome = false := by decide +kernel
  rw [hchunk] at hnone
  cases hnone

end LuaSyntax
