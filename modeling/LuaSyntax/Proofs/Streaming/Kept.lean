import LuaSyntax.Proofs.Reading.Deliveries
import LuaSyntax.Proofs.Streaming.Replay
import LuaSyntax.Stream

/-!
# What a stream keeps

`Stream.Holds` is the invariant of a stream: the tokens and comments that it keeps are some
deliveries, and these are what is read from the beginning up to the checkpoint, whatever more of the
source may come. It holds of a new stream, and writing preserves it: a token is kept only if it ends
before the end of what has arrived, and such a token does not change.
-/

namespace LuaSyntax.Stream

open Replay (marked)

variable {stream : Stream} {deliveries : List Delivery} {text more : Text} {token : Token}
  {after : Lexer}

/-- A stream to which more of the source has come, before any of it is read. -/
def extend (stream : Stream) (more : Text) : Stream :=
  { stream with source := stream.source ++ more }

/-- To extend twice is to extend by both. -/
theorem extend_extend (stream : Stream) (more later : Text) :
    (stream.extend more).extend later = stream.extend (more ++ later) := by
  simp only [extend, List.append_assoc]

/-- A stream without a checkpoint reads from the start of its source. -/
theorem lexer_of_start (h : stream.checkpoint = .start) :
    stream.lexer = Lexer.start stream.options stream.source := if_pos h

/-- A stream with a checkpoint goes on from there. -/
theorem lexer_of_ne (h : stream.checkpoint ≠ .start) :
    stream.lexer = Lexer.resume stream.options stream.source stream.checkpoint := if_neg h

/-- The deliveries that a stream keeps are read from the beginning up to its checkpoint, whatever
comes behind the source. -/
structure Holds (stream : Stream) (deliveries : List Delivery) : Prop where
  tokens_eq : stream.tokens = deliveries.map Delivery.token
  comments_eq : stream.comments = marked 0 deliveries
  reads : ∀ more, Lexer.Reads (Lexer.start stream.options (stream.source ++ more)) deliveries
    (stream.extend more).lexer

/-- A new stream keeps nothing. -/
theorem holds_new (options : ParseOptions) : Holds { options } [] where
  tokens_eq := rfl
  comments_eq := rfl
  reads _ := .none _

/-- A stream holds the same when its text grows. -/
theorem Holds.extend (h : stream.Holds deliveries) (more : Text) :
    (stream.extend more).Holds deliveries where
  tokens_eq := h.tokens_eq
  comments_eq := h.comments_eq
  reads later := by
    rw [extend_extend, Stream.extend, List.append_assoc]
    exact h.reads (more ++ later)

/-- The feed of what is kept is what was read, and then the end. -/
theorem feed_eq {trailing : List Comment} {ending : Token}
    (htokens : stream.tokens = deliveries.map Delivery.token)
    (hcomments : stream.comments =
      marked 0 deliveries ++ trailing.map (deliveries.length, ·)) :
    stream.feed ending = ⟨deliveries, .ok ⟨ending, trailing⟩⟩ := by
  rw [feed, htokens, hcomments, Replay.feed_marked]

/-- A stream has read what it holds. -/
theorem Holds.reads_self (h : stream.Holds deliveries) :
    Lexer.Reads (Lexer.start stream.options stream.source) deliveries stream.lexer := by
  have := h.reads []
  rwa [Stream.extend, List.append_nil] at this

/-- The lexer of a stream stands between two characters. -/
theorem Holds.sited (h : stream.Holds deliveries) :
    ∃ text, stream.lexer.Sited text ∧ text.length + deliveries.length ≤ stream.source.length := by
  obtain ⟨text, hstart, hl⟩ := Lexer.sited_start stream.options stream.source
  obtain ⟨rest, hrest, hle⟩ := h.reads_self.sited hstart
  exact ⟨rest, hrest, Nat.le_trans hle hl⟩

/-- The lexer of a stream has its options. -/
theorem options_lexer (stream : Stream) : stream.lexer.options = stream.options := by
  rw [lexer]
  split
  · rw [Lexer.start, Lexer.skipShebang]
    split <;> rfl
  · rfl

/-- The lexer of a stream has its source. -/
theorem source_lexer (stream : Stream) : stream.lexer.source = stream.source := by
  rw [lexer]
  split
  · rw [Lexer.start, Lexer.skipShebang]
    split <;> rfl
  · rfl

/-- More source does not move the lexer, once there is something to read that is no lonely hash. -/
theorem lexer_extend (h : stream.lexer.Sited text) (hne : text ≠ []) (hhash : text ≠ ['#']) :
    (stream.extend more).lexer = stream.lexer.grow more := by
  by_cases hstart : stream.checkpoint = .start
  · rw [lexer_of_start hstart] at h ⊢
    rw [lexer_of_start (by exact hstart)]
    exact Lexer.start_append h hne hhash
  · rw [lexer_of_ne hstart] at h ⊢
    rw [lexer_of_ne (by exact hstart)]
    exact Lexer.resume_append (Nat.le_of_add_right_le h.size_source.le)

/-! ## Keeping a token -/

/-- A token that may not grow is read where there is more than the beginning of a first line. -/
theorem ne_of_not_mayGrow (h : stream.lexer.Sited text)
    (hn : stream.lexer.next = (.ok token, after)) (hgrow : stream.mayGrow token = false) :
    text ≠ [] ∧ text ≠ ['#'] := by
  obtain ⟨hend, hstop⟩ := Bool.or_eq_false_iff.mp hgrow
  obtain ⟨-, value, length, hr, rfl, -⟩ := (Lexer.next_eq_ok h.rest_eq).mp hn
  constructor
  · rintro rfl
    cases hr
    cases hend
  · rintro rfl
    cases hr
    have hsize := h.size_source
    have hoffset := Trivia.offset_stop stream.lexer.options stream.lexer.source
      stream.lexer.place ['#']
    have hbehind : Trivia.behind ['#'] = ['#'] := rfl
    rw [source_lexer] at hsize
    rw [hbehind, ← Lexer.trivia] at hoffset
    rw [decide_eq_false_iff_not, Lexer.tokenOf, Place.offset_after, hbehind] at hstop
    have htake : ['#'].take Symbol.hash.spelling.length = ['#'] := rfl
    exact hstop (by rw [htake]; omega)

variable (token after) in
/-- A token that is kept is kept as one more delivery. -/
theorem tokens_keep (h : stream.tokens = deliveries.map Delivery.token) :
    (stream.keep token after).tokens =
      List.map Delivery.token (deliveries ++ [⟨token, after.comments⟩]) := by
  rw [List.map_append, ← h]
  rfl

variable (token after) in
/-- Each comment of a stream is marked with the token behind it. -/
theorem comments_keep (h : stream.tokens = deliveries.map Delivery.token)
    (hcomments : stream.comments = marked 0 deliveries) :
    (stream.keep token after).comments = marked 0 (deliveries ++ [⟨token, after.comments⟩]) := by
  rw [Replay.marked_append, ← hcomments]
  simp [Stream.keep, keepUpTo, h, marked]

/-- A token that may not grow can be kept: then it is read whatever comes. -/
theorem Holds.keep (h : stream.Holds deliveries) (hn : stream.lexer.next = (.ok token, after))
    (hgrow : stream.mayGrow token = false) :
    (stream.keep token after).Holds (deliveries ++ [⟨token, after.comments⟩]) ∧
      (stream.keep token after).lexer = after.drain.2 := by
  obtain ⟨text, hsited, -⟩ := h.sited
  obtain ⟨hne, hhash⟩ := ne_of_not_mayGrow hsited hn hgrow
  obtain ⟨hend, hstop⟩ := Bool.or_eq_false_iff.mp hgrow
  rw [decide_eq_false_iff_not, Nat.not_le] at hstop
  obtain ⟨rest, hrest, -⟩ := hsited.next hn hend
  have hoptions : after.options = stream.options := by
    rw [← options_lexer stream, Lexer.options_next hsited.rest_eq hn]
  have hsource : after.source = stream.source := by
    rw [← source_lexer stream, Lexer.source_next hsited.rest_eq hn]
  have hmoved : after.place ≠ .start := by
    intro hstart
    have := Lexer.offset_lt_of_next hsited.rest_eq hn hend
    rw [hstart] at this
    cases this
  have hlexer : Lexer.resume stream.options stream.source after.place = after.drain.2 := by
    rw [← hoptions, ← hsource]
    exact (hrest.drain.eq_resume rfl).symm
  refine ⟨⟨tokens_keep _ _ h.tokens_eq, comments_keep _ _ h.tokens_eq h.comments_eq,
    fun more => ?_⟩, ?_⟩
  · have hnext : (stream.extend more).lexer.next = (.ok token, after.grow more) := by
      rw [lexer_extend hsited hne hhash]
      exact Lexer.next_grow hsited hn hend (by rw [source_lexer]; exact hstop)
    have hlater : ((stream.keep token after).extend more).lexer = (after.grow more).drain.2 := by
      rw [lexer_of_ne (by exact hmoved)]
      have hsize := hrest.size_source
      rw [hsource] at hsize
      have hresume : Lexer.resume stream.options (stream.source ++ more) after.place =
          (Lexer.resume stream.options stream.source after.place).grow more :=
        Lexer.resume_append (Nat.le_of_add_right_le hsize.le)
      rw [hlexer] at hresume
      exact hresume
    rw [hlater]
    have hread := Lexer.Reads.one hnext hend (.none _)
    exact (h.reads more).append hread
  · rw [lexer_of_ne (by exact hmoved)]
    exact hlexer

/-! ## Reading what has arrived -/

/-- Where reading stops that keeps tokens: at a token that may grow, at an error for which the end
of the input is to blame, or at another error, which is the only one that is reported. -/
inductive Stopped (stream : Stream) : Except ParseError Unit → Prop where
  | waiting {token : Token} {after : Lexer} :
      stream.lexer.next = (.ok token, after) → stream.mayGrow token = true → Stopped stream (.ok ())
  | unfinished {error : ParseError} {after : Lexer} :
      stream.lexer.next = (.error error, after) → error.endOfInput = true →
      Stopped stream (.ok ())
  | wrong {error : ParseError} {after : Lexer} :
      stream.lexer.next = (.error error, after) → error.endOfInput = false →
      Stopped stream (.error error)

/-- Reading keeps tokens up to where it has to stop, and nothing else changes. -/
theorem readStable_spec {fuel : Nat} (h : stream.Holds deliveries)
    (hl : stream.source.length < fuel + deliveries.length) :
    ∃ deliveries', (readStable fuel stream.lexer stream).2.Holds deliveries' ∧
      (readStable fuel stream.lexer stream).2.options = stream.options ∧
      (readStable fuel stream.lexer stream).2.source = stream.source ∧
      Stopped (readStable fuel stream.lexer stream).2
        (readStable fuel stream.lexer stream).1 := by
  induction fuel generalizing stream deliveries with
  | zero =>
    -- more deliveries than characters cannot have been read
    obtain ⟨text, -, hle⟩ := h.sited
    omega
  | succ fuel ih =>
    match hn : stream.lexer.next with
    | (.error error, after) =>
      cases hend : error.endOfInput with
      | true =>
        have hread : readStable (fuel + 1) stream.lexer stream = (.ok (), stream) := by
          rw [readStable, hn]
          simp only [hend, if_true]
        rw [hread]
        exact ⟨deliveries, h, rfl, rfl, .unfinished hn hend⟩
      | false =>
        have hread : readStable (fuel + 1) stream.lexer stream = (.error error, stream) := by
          rw [readStable, hn]
          simp only [hend, Bool.false_eq_true, if_false]
        rw [hread]
        exact ⟨deliveries, h, rfl, rfl, .wrong hn hend⟩
    | (.ok token, after) =>
      cases hgrow : stream.mayGrow token with
      | true =>
        have hread : readStable (fuel + 1) stream.lexer stream = (.ok (), stream) := by
          rw [readStable, hn]
          simp only [hgrow, if_true]
        rw [hread]
        exact ⟨deliveries, h, rfl, rfl, .waiting hn hgrow⟩
      | false =>
        obtain ⟨hkept, hlexer⟩ := h.keep hn hgrow
        have hread : readStable (fuel + 1) stream.lexer stream =
            readStable fuel (stream.keep token after).lexer (stream.keep token after) := by
          rw [readStable, hn]
          simp only [hgrow, Bool.false_eq_true, if_false, hlexer]
        rw [hread]
        refine ih hkept ?_
        rw [List.length_append, List.length_singleton]
        show stream.source.length < _
        omega

/-- There are more turns of reading than tokens that can still be read. -/
theorem lt_bound_add (stream : Stream) (deliveries : List Delivery) :
    stream.source.length < stream.bound + deliveries.length :=
  Nat.lt_of_lt_of_le (Nat.lt_succ_self _) (Nat.le_add_right _ _)

/-- The stream after some pieces of input. -/
def fed (options : ParseOptions) (pieces : List Text) : Stream :=
  pieces.foldl (fun stream text => (stream.write text).2) { options }

/-- Text is written and answered with the progress if reading goes well. -/
theorem write_of_ok {stream' : Stream} (h : readStable (stream.extend text).bound
    (stream.extend text).lexer (stream.extend text) = (.ok (), stream')) :
    stream.write text = (stream'.progress, stream') := by
  unfold extend at h
  simp only [write, h]

/-- Text is written and answered with the error if reading fails. -/
theorem write_of_error {stream' : Stream} {error : ParseError}
    (h : readStable (stream.extend text).bound (stream.extend text).lexer (stream.extend text) =
      (.error error, stream')) : stream.write text = (.error error, stream') := by
  unfold extend at h
  simp only [write, h]

/-- Writing a piece keeps what can be kept of it, and answers by what is kept then or by something
that is no token. -/
theorem Holds.write_spec (h : stream.Holds deliveries) (text : Text) :
    ∃ deliveries', (stream.write text).2.Holds deliveries' ∧
      (stream.write text).2.options = stream.options ∧
      (stream.write text).2.source = stream.source ++ text ∧
      ((Stopped (stream.write text).2 (.ok ()) ∧
          (stream.write text).1 = (stream.write text).2.progress) ∨
        ∃ error after, (stream.write text).2.lexer.next = (.error error, after) ∧
          error.endOfInput = false ∧ (stream.write text).1 = .error error) := by
  have hspec := readStable_spec (h.extend text) (lt_bound_add (stream.extend text) deliveries)
  cases hread : readStable (stream.extend text).bound (stream.extend text).lexer
    (stream.extend text) with
  | mk result stream' =>
    rw [hread] at hspec
    obtain ⟨deliveries', hholds, hoptions, hsource, hstopped⟩ := hspec
    cases result with
    | ok =>
      rw [write_of_ok hread]
      exact ⟨deliveries', hholds, hoptions, hsource, .inl ⟨hstopped, rfl⟩⟩
    | error error =>
      rw [write_of_error hread]
      cases hstopped with
      | wrong hn hend => exact ⟨deliveries', hholds, hoptions, hsource, .inr ⟨_, _, hn, hend, rfl⟩⟩

/-- After any pieces of input a stream holds what can be kept of them. -/
theorem holds_fed (options : ParseOptions) (pieces : List Text) :
    ∃ deliveries, (fed options pieces).Holds deliveries ∧
      (fed options pieces).options = options ∧ (fed options pieces).source = pieces.flatten := by
  induction pieces using List.reverseRecOn with
  | nil => exact ⟨[], holds_new options, rfl, rfl⟩
  | append_singleton pieces text ih =>
    obtain ⟨deliveries, h, hoptions, hsource⟩ := ih
    obtain ⟨deliveries', h', hoptions', hsource', -⟩ := h.write_spec text
    rw [fed, List.foldl_append]
    refine ⟨deliveries', h', hoptions'.trans hoptions, hsource'.trans ?_⟩
    rw [hsource, List.flatten_append]
    simp

/-! ## Reading the rest -/

/-- Reading the rest keeps everything up to the end, which then is what is read of the source; the
first error is reported instead. -/
theorem readRest_spec {fuel : Nat} {lexer : Lexer} (h : lexer.Sited text)
    (hl : text.length < fuel) (htokens : stream.tokens = deliveries.map Delivery.token)
    (hcomments : stream.comments = marked 0 deliveries) :
    (∃ error, lexer.reading.ending = .error error ∧
        (readRest fuel lexer stream).1 = .error error) ∨
      ∃ last, lexer.reading.ending = .ok last ∧
        (readRest fuel lexer stream).1 = .ok last.token ∧
        (readRest fuel lexer stream).2.options = stream.options ∧
        (readRest fuel lexer stream).2.source = stream.source ∧
        (readRest fuel lexer stream).2.feed last.token =
          ⟨deliveries ++ lexer.reading.deliveries, .ok last⟩ := by
  induction fuel generalizing lexer stream deliveries text with
  | zero => cases hl
  | succ fuel ih =>
    match hn : lexer.next with
    | (.error error, after) =>
      rw [Lexer.reading_of_error hn, readRest, hn]
      exact .inl ⟨error, rfl, rfl⟩
    | (.ok token, after) =>
      cases hend : token.isEnd with
      | true =>
        have hread : readRest (fuel + 1) lexer stream = (.ok token, stream.keepUpTo after) := by
          rw [readRest, hn]
          simp only [hend, if_true]
        rw [Lexer.reading_of_end hn hend, hread, List.append_nil]
        refine .inr ⟨_, rfl, rfl, rfl, rfl, feed_eq htokens ?_⟩
        rw [keepUpTo, hcomments, htokens, List.length_map]
      | false =>
        obtain ⟨rest, hrest, hlt⟩ := h.next hn hend
        have hread : readRest (fuel + 1) lexer stream =
            readRest fuel after.drain.2 (stream.keep token after) := by
          rw [readRest, hn]
          simp only [hend, Bool.false_eq_true, if_false]
        have hkept := ih hrest.drain (by omega) (tokens_keep token after htokens)
          (comments_keep token after htokens hcomments)
        rw [List.append_assoc] at hkept
        rw [h.reading_of_token hn hend, hread]
        exact hkept

end LuaSyntax.Stream
