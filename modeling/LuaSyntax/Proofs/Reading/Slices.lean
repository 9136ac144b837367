import LuaSyntax.Proofs.Grammar.Gathered

/-!
# Lexemes are slices of their source

Each token and each comment is written in the source exactly as its text says, between the two offsets at
which it is said to stand. A name is the text of its token. Tokens do not overlap: one that is not the end
ends where the next begins or before that.
-/

namespace LuaSyntax

/-- Whether a text is what a source has between two offsets. -/
def Text.Shows (source : Text) (span : Span) (raw : Text) : Prop :=
  ∃ before behind, source = before ++ (raw ++ behind) ∧ span = ⟨size before, size before + size raw⟩

variable {options : ParseOptions} {source text behind : Text}

/-- A span that shows a text ends within the source. -/
theorem Text.Shows.stop_le {span : Span} {raw : Text} (h : source.Shows span raw) :
    span.stop ≤ Text.size source := by
  obtain ⟨before, behind, rfl, rfl⟩ := h
  rw [Text.size_append, Text.size_append, ← Nat.add_assoc]
  exact Nat.le_add_right _ _

/-! ## Comments -/

/-- A comment that stands in a source as it is written. -/
def Comment.Verbatim (options : ParseOptions) (source : Text) (comment : Comment) : Prop :=
  ∃ start stop, comment.placement = .between options source start stop ∧
    source.Shows ⟨start.offset, stop.offset⟩ comment.raw.toList

/-- The comments among some pieces of a source stand where the pieces do. -/
theorem Trivia.verbatim_collect {row : List (Text × Trivium)} {place : Place} {before : Text}
    (hsource : source = before ++ ((row.map Prod.fst).flatten ++ behind))
    (hplace : place.offset = Text.size before) :
    ∀ comment ∈ (collect options source place row).1, comment.Verbatim options source := by
  induction row generalizing place before with
  | nil => exact List.forall_mem_nil _
  | cons first others ih =>
    obtain ⟨raw, trivium⟩ := first
    rw [List.map_cons, List.flatten_cons, List.append_assoc] at hsource
    have hothers := @ih (place.after raw) (before ++ raw) (by rw [hsource, List.append_assoc])
      (by rw [Place.offset_after, hplace, Text.size_append])
    cases trivium with
    | blank => exact hothers
    | comment value =>
      refine List.forall_mem_cons.mpr ⟨⟨place, place.after raw, rfl, before,
        (others.map Prod.fst).flatten ++ behind, ?_, ?_⟩, hothers⟩
      · rw [String.toList_ofList]
        exact hsource
      · rw [Place.offset_after, hplace, String.toList_ofList]

/-! ## Names -/

namespace Lexeme

/-- A word read as an identifier is that name. -/
theorem name_of_word {dialect : Dialect} {name name' : String}
    (h : word dialect name = .identifier name') : name' = name := by
  rw [word] at h
  split at h
  · cases h
  · split at h
    · cases h
    · split at h
      · cases h
      · split at h
        · cases h
        · exact (TokenValue.identifier.inj h).symm

/-- A name is what is read as a name. -/
theorem name_of_read {line : Nat} {name : String} {length : Nat}
    (h : read options line text = .ok (.identifier name, length)) :
    String.ofList (text.take length) = name := by
  cases text with
  | nil => cases h
  | cons c rest =>
    cases read_eq_ok_iff.mp h with
    | name _ hname hword =>
      rw [name_of_word hword, ← hname]
      exact congrArg String.ofList (List.prefix_iff_eq_take.mp (List.takeWhile_prefix _)).symm

end Lexeme

/-! ## Tokens -/

/-- A token that stands in a source as it is written. -/
structure Token.Verbatim (source : Text) (token : Token) : Prop where
  shows : source.Shows token.span token.lexeme.toList
  name : ∀ name, token.name? = some name → token.lexeme = name
  le : token.start.offset ≤ token.stop.offset
  lt : token.isEnd = false → token.start.offset < token.stop.offset

namespace Lexer

variable {lexer after last : Lexer} {token : Token} {deliveries : List Delivery}

/-- The comments before a token stand in the source as they are written. -/
theorem Sited.verbatim_trivia (h : lexer.Sited text) :
    ∀ comment ∈ (lexer.trivia text).comments, comment.Verbatim lexer.options lexer.source := by
  obtain ⟨before, hsource, hoffset⟩ := h.source_eq
  have hrow : lexer.source = before ++
      (((pieces Trivium.piece 0 text).found.map Prod.fst).flatten ++ Trivia.behind text) := by
    rw [← Pieces.covered, Trivia.covered_append_behind text, hsource]
  rw [trivia, Trivia.read]
  show ∀ comment ∈ (if lexer.options.collectComments then _ else _), _
  split
  · exact Trivia.verbatim_collect hrow hoffset
  · exact List.forall_mem_nil _

/-- What a lexer reads stands in its source as it is written. -/
theorem Sited.verbatim (h : lexer.Sited text) (hn : lexer.next = (.ok token, after)) :
    token.Verbatim lexer.source ∧ (lexer.comments = [] → ∀ comment ∈ after.comments,
      comment.Verbatim lexer.options lexer.source) := by
  have hle := (offset_le_of_next h.rest_eq hn).2
  have hlt := start_lt_stop_of_next h.rest_eq hn
  obtain ⟨before, hsource, hoffset⟩ := h.source_eq
  obtain ⟨-, value, length, hread, rfl, rfl⟩ := (next_eq_ok h.rest_eq).mp hn
  have hcovered := Trivia.covered_append_behind text
  refine ⟨⟨?_, fun name hname => ?_, hle, hlt⟩, fun hcomments => ?_⟩
  · refine ⟨before ++ (pieces Trivium.piece 0 text).covered, (Trivia.behind text).drop length, ?_, ?_⟩
    · rw [tokenOf, String.toList_ofList, List.take_append_drop, List.append_assoc, hcovered, hsource]
    · have hstop := Trivia.offset_stop lexer.options lexer.source lexer.place text
      have hsize := congrArg Text.size hcovered
      rw [Text.size_append] at hsize
      rw [Token.span, tokenOf, String.toList_ofList, Place.offset_after, Text.size_append]
      have hstart : (lexer.trivia text).stop.offset =
          Text.size before + Text.size (pieces Trivium.piece 0 text).covered := by
        rw [← trivia] at hstop
        omega
      rw [hstart]
  · rw [Token.name?, tokenOf] at hname
    split at hname
    · next heq =>
      obtain rfl := Option.some.inj hname
      change value = _ at heq
      rw [heq] at hread
      exact Lexeme.name_of_read hread
    · cases hname
  · rw [Lexer.behind, hcomments, List.nil_append]
    exact h.verbatim_trivia

/-- Tokens that are read one behind the other do not overlap. -/
theorem Reads.apart (h : Reads lexer deliveries last) (hl : lexer.Sited text) :
    (∀ delivery ∈ deliveries, delivery.token.stop.offset ≤ last.place.offset) ∧
      deliveries.Pairwise fun a b => a.token.stop.offset ≤ b.token.start.offset := by
  induction h generalizing text with
  | none => exact ⟨List.forall_mem_nil _, .nil⟩
  | @one lexer after last token deliveries hn hend hothers ih =>
    obtain ⟨rest, hrest, -⟩ := hl.next hn hend
    obtain ⟨hle, hbetween, -⟩ := hothers.sorted hrest.drain
    obtain ⟨hstops, hapart⟩ := ih hrest.drain
    have hplace : after.place.offset = token.stop.offset :=
      congrArg Place.offset (place_next hl.rest_eq hn)
    have hdrain : after.drain.2.place.offset = token.stop.offset := hplace
    rw [hdrain] at hle hbetween
    exact ⟨List.forall_mem_cons.mpr ⟨hle, hstops⟩,
      List.pairwise_cons.mpr ⟨fun delivery hmem => (hbetween delivery hmem).1, hapart⟩⟩

end Lexer

/-- All tokens and comments that are read of a source stand in it as they are written, and the tokens do not
overlap. -/
theorem Lexer.feed_verbatim (options : ParseOptions) (source : Text) :
    (∀ delivery ∈ (Lexer.feed options source).stock, delivery.token.Verbatim source ∧
      ∀ comment ∈ delivery.comments, comment.Verbatim options source) ∧
    (Lexer.feed options source).stock.Pairwise fun a b =>
      a.token.stop.offset ≤ b.token.start.offset := by
  have hclear := Lexer.clear_start options source
  have hread {lexer after : Lexer} {token : Token} (hlexer : lexer.Clear options source)
      (hn : lexer.next = (.ok token, after)) : token.Verbatim source ∧
        ∀ comment ∈ after.comments, comment.Verbatim options source := by
    obtain ⟨text, hsited⟩ := hlexer.sited
    obtain ⟨htoken, hcomments⟩ := hsited.verbatim hn
    have hcomments := hcomments hlexer.comments_eq
    rw [hlexer.source_eq, hlexer.options_eq] at hcomments
    exact ⟨hlexer.source_eq ▸ htoken, hcomments⟩
  obtain ⟨text, hsited⟩ := hclear.sited
  obtain ⟨stop, hreads, hending⟩ := hsited.reads_reading
  obtain ⟨hstop, hholds⟩ := hreads.holds hclear Lexer.Clear.next
  obtain ⟨hstops, hapart⟩ := hreads.apart hsited
  rw [Lexer.feed_eq_reading, Feed.stock]
  have hdeliveries : ∀ delivery ∈ (Lexer.start options source).reading.deliveries,
      delivery.token.Verbatim source ∧ ∀ comment ∈ delivery.comments, comment.Verbatim options source := by
    intro delivery hmem
    obtain ⟨lexer, after, hlexer, hn, heq⟩ := hholds delivery hmem
    exact heq ▸ hread hlexer hn
  obtain ⟨error, after, -, heq⟩ | ⟨token, after, hn, -, heq⟩ := hending
  · rw [heq]
    exact ⟨List.forall_mem_append.mpr ⟨hdeliveries, List.forall_mem_nil _⟩,
      List.pairwise_append.mpr ⟨hapart, .nil, fun _ _ _ hmem => by cases hmem⟩⟩
  · rw [heq]
    obtain ⟨text', hsited'⟩ := hstop.sited
    have hplace := (Lexer.offset_le_of_next hsited'.rest_eq hn).1
    refine ⟨List.forall_mem_append.mpr ⟨hdeliveries, List.forall_mem_singleton.mpr (hread hstop hn)⟩,
      List.pairwise_append.mpr ⟨hapart, List.pairwise_singleton _ _, fun delivery hmem other hother => ?_⟩⟩
    obtain rfl := List.mem_singleton.mp hother
    exact Nat.le_trans (hstops delivery hmem) hplace

end LuaSyntax
