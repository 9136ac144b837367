import LuaSyntax.Proofs.Grammar.Grounded.Chunk
import LuaSyntax.Proofs.Reading.Places
import LuaSyntax.Proofs.Streaming.OneShot

/-!
# All that is reported stands where it is said to stand

Tokens, comments, nodes and errors all say on which line and in which column they stand. Whatever options
a source is read with, and whether it is read at once or handed over in pieces, these are the line and the
column that a scan of the source from its beginning finds at the offset in question.
-/

namespace LuaSyntax

/-- What is asked of a tree whose nodes and comments all stand where their placements say. -/
def Demands.accurate (source : Text) : Demands where
  feature _ := True
  identifier identifier := identifier.placement.Accurate source
  literal literal := literal.placement.Accurate source
  comment comment := comment.placement.Accurate source
  placement placement := placement.Accurate source

/-- Tokens whose ends are accurate places, and trees that are made of them. -/
def Ground.ofPlaces (options : ParseOptions) (source : Text) : Ground where
  options
  source
  token token := token.start.Accurate source ∧ token.stop.Accurate source ∧
    token.start.offset ≤ token.stop.offset
  error error := error.Accurate source
  demands := .accurate source
  ordered h := h.2.2
  blamed h _ _ := h.1.error rfl rfl
  feature _ := trivial
  word _ _ _ := trivial
  identifier h _ := h.1.between h.2.1 options
  renamed _ h := h
  literal h _ := h.1.between h.2.1 options
  placement hfirst hlast _ := hfirst.1.between hlast.2.1 options

variable {options : ParseOptions} {source : Text}

/-- Lexers of a source come to known places only. -/
theorem Ground.covers_ofPlaces (options : ParseOptions) (source : Text) :
    (Ground.ofPlaces options source).Covers fun lexer =>
      lexer.source = source ∧ ∃ text, lexer.Placed text where
  sited h := h.2.imp fun _ hplaced => hplaced.sited
  next := by
    rintro lexer after token ⟨rfl, text, hplaced⟩ hnext -
    obtain ⟨-, -, rest, hrest⟩ := hplaced.next hnext
    have hsource : after.source = lexer.source := Lexer.source_next hplaced.rest_eq hnext
    exact ⟨hsource, rest, hrest.drain⟩
  token := by
    rintro lexer after token ⟨rfl, text, hplaced⟩ hnext
    obtain ⟨hstart, hstop, rest, hrest⟩ := hplaced.next hnext
    refine ⟨⟨hstart, hstop, (Lexer.offset_le_of_next hplaced.rest_eq hnext).2⟩, ?_⟩
    rw [← Lexer.source_next hplaced.rest_eq hnext]
    exact hrest.comments
  error := by
    rintro lexer after error ⟨rfl, text, hplaced⟩ hnext
    exact hplaced.failed hnext

/-- The lexer of a source begins at an accurate place. -/
theorem Lexer.known_start (options : ParseOptions) (source : Text) :
    (Lexer.start options source).source = source ∧
      ∃ text, (Lexer.start options source).Placed text :=
  ⟨Lexer.source_start options source, Lexer.placed_start options source⟩

/-- All that a source is read into stands in accurate places. -/
theorem Lexer.feed_grounded (options : ParseOptions) (source : Text) :
    (Lexer.feed options source).Grounded (.ofPlaces options source) := by
  rw [Lexer.feed_eq_reading]
  exact (Ground.covers_ofPlaces options source).grounded_reading (Lexer.known_start options source)

/-! ## Input in pieces -/

namespace Stream

variable {stream : Stream} {deliveries : List Delivery}

/-- The lexer of a stream stands at an accurate place. -/
theorem Holds.placed (h : stream.Holds deliveries) : ∃ text, stream.lexer.Placed text := by
  have hcovers := Ground.covers_ofPlaces stream.options stream.source
  obtain ⟨⟨-, hplaced⟩, -⟩ :=
    h.reads_self.holds (Lexer.known_start stream.options stream.source) hcovers.next
  exact hplaced

/-- A stream whose checkpoint is the beginning has kept nothing. -/
theorem Holds.eq_nil (h : stream.Holds deliveries) (hstart : stream.checkpoint = .start) :
    deliveries = [] := by
  obtain ⟨text, hsited, -⟩ := Lexer.sited_start stream.options stream.source
  have hreads := h.reads_self
  rw [lexer_of_start hstart] at hreads
  obtain ⟨rest, hrest, hle⟩ := hreads.sited hsited
  obtain rfl : rest = text := Option.some.inj (hrest.rest_eq.symm.trans hsited.rest_eq)
  exact List.eq_nil_of_length_eq_zero (by omega)

/-- The checkpoint of a stream is an accurate place, and where its lexer stands once something is kept. -/
theorem Holds.checkpoint_accurate (h : stream.Holds deliveries) :
    stream.checkpoint.Accurate stream.source ∧
      (deliveries = [] ∨ stream.lexer.place.offset ≤ stream.checkpoint.offset) := by
  by_cases hstart : stream.checkpoint = .start
  · rw [hstart]
    exact ⟨(Place.marks_start stream.source).accurate, .inl (h.eq_nil hstart)⟩
  · obtain ⟨text, hplaced⟩ := h.placed
    have hmarks := hplaced.marks
    rw [lexer_of_ne hstart] at hmarks ⊢
    exact ⟨hmarks.accurate, .inr (Nat.le_refl _)⟩

/-- What is kept, with the end of the input behind it, is grounded. -/
theorem Holds.feed_grounded (h : stream.Holds deliveries) :
    (stream.feed (.endOfInput stream.checkpoint)).Grounded (.ofPlaces stream.options stream.source) := by
  have hcomments : stream.comments =
      Replay.marked 0 deliveries ++ ([] : List Comment).map (deliveries.length, ·) := by
    rw [List.map_nil, List.append_nil, h.comments_eq]
  rw [feed_eq h.tokens_eq hcomments]
  obtain ⟨haccurate, hbehind⟩ := h.checkpoint_accurate
  refine (Ground.covers_ofPlaces stream.options stream.source).grounded
    (Lexer.known_start stream.options stream.source) h.reads_self (fun delivery heq => ?_)
    fun _ heq => by cases heq
  obtain rfl := Except.ok.inj heq
  exact ⟨⟨haccurate, haccurate, Nat.le_refl _⟩, List.forall_mem_nil _, hbehind⟩

/-- An error with which a stream answers is reported accurately. -/
theorem Holds.write_accurate (h : stream.Holds deliveries) (text : Text) {error : ParseError}
    (herror : (stream.write text).1 = .error error) : error.Accurate (stream.source ++ text) := by
  obtain ⟨deliveries', h', hoptions, hsource, hanswer⟩ := h.write_spec text
  rw [← hsource]
  rcases hanswer with ⟨-, hprogress⟩ | ⟨error', after, hnext, -, hwrong⟩
  · have hgrounded := (Grammar.run_grounded _ h'.feed_grounded).2
    rw [hprogress] at herror
    simp only [progress] at herror
    split at herror
    · cases herror
    · next error' hresult =>
      split at herror
      · cases herror
      · cases herror
        exact hgrounded _ hresult
  · obtain rfl : error' = error := Except.error.inj (hwrong.symm.trans herror)
    obtain ⟨rest, hplaced⟩ := h'.placed
    rw [← source_lexer]
    exact hplaced.failed hnext

end Stream

/-! ## All reports -/

/-- What a parse gives stands in accurate places, an error too. -/
theorem parse_accurate (options : ParseOptions) (source : Text) :
    (∀ chunk, parse options source = .ok chunk → chunk.Meets (.accurate source)) ∧
      ∀ error, parse options source = .error error → error.Accurate source :=
  Grammar.run_grounded (.ofPlaces options source) (Lexer.feed_grounded options source)

/-- What a stream gives at its end stands in accurate places of all the text that was written. -/
theorem finish_accurate (options : ParseOptions) (pieces : List Text) (last : Text) :
    (∀ chunk, ((Stream.fed options pieces).finish last).1 = .ok chunk →
        chunk.Meets (.accurate (pieces.flatten ++ last))) ∧
      ∀ error, ((Stream.fed options pieces).finish last).1 = .error error →
        error.Accurate (pieces.flatten ++ last) := by
  obtain ⟨deliveries, h, hoptions, hsource⟩ := Stream.holds_fed options pieces
  rw [← hsource]
  rcases h.finish last with ⟨error, hending, hfinish⟩ | ⟨ending, -, hfinish⟩
  · rw [hfinish]
    refine ⟨fun _ heq => (by cases heq), fun error' heq => ?_⟩
    obtain rfl := Except.error.inj heq
    exact (Lexer.feed_grounded _ _).ending error hending
  · rw [hfinish]
    exact parse_accurate _ _

/-- Every line and column that is reported of a source is that of its offset: of the tokens and comments
that are read up to the end or the first error, of the nodes and comments of the tree, and of every error
of reading, of parsing, and of handing over the source in pieces. -/
theorem reports_accurate (options : ParseOptions) (source : Text) :
    (∀ delivery ∈ (Lexer.feed options source).stock,
        delivery.token.start.Accurate source ∧ delivery.token.stop.Accurate source ∧
          ∀ comment ∈ delivery.comments, comment.placement.Accurate source) ∧
      (∀ error, tokenize options source = .error error → error.Accurate source) ∧
      (∀ chunk, parse options source = .ok chunk → chunk.Meets (.accurate source)) ∧
      (∀ error, parse options source = .error error → error.Accurate source) ∧
      ∀ pieces last, source = List.flatten pieces ++ last →
        (∀ error, ((Stream.fed options pieces).write last).1 = .error error → error.Accurate source) ∧
        (∀ chunk, ((Stream.fed options pieces).finish last).1 = .ok chunk →
          chunk.Meets (.accurate source)) ∧
        ∀ error, ((Stream.fed options pieces).finish last).1 = .error error →
          error.Accurate source := by
  have hfeed := Lexer.feed_grounded options source
  refine ⟨fun delivery hmem => ?_, fun error heq => hfeed.ending error (tokenize_eq_error heq),
    (parse_accurate options source).1, (parse_accurate options source).2, ?_⟩
  · obtain ⟨hstart, hstop, -⟩ := hfeed.tokens delivery hmem
    exact ⟨hstart, hstop, hfeed.comments delivery hmem⟩
  · rintro pieces last rfl
    obtain ⟨deliveries, h, -, hsource⟩ := Stream.holds_fed options pieces
    refine ⟨fun error heq => ?_, finish_accurate options pieces last⟩
    rw [← hsource]
    exact h.write_accurate last heq

end LuaSyntax
