import LuaSyntax.Proofs.Reading.Breaks.Lexemes
import LuaSyntax.Proofs.Reading.Lexers

/-!
# Places that a lexer comes to

A lexer keeps the place that it has come to and moves it over each piece of text that it reads. No piece
divides a line break, so the place is always the one that a scan of the source from its beginning finds at
that offset. With the lexer the two ends of every token and of every comment are such places, and what
cannot be read is reported there.
-/

namespace LuaSyntax

variable {source text behind : Text} {place : Place}

/-- Whether an error lies between two characters of a source, or at its end, and is told with the line
and the column of its offset. -/
structure ParseError.Accurate (source : Text) (error : ParseError) : Prop where
  le : error.offset ≤ Text.size source
  boundary : source.IsBoundary error.offset
  position : error.position = (source.scanTo error.offset).position

/-- An error at an accurate place is accurate. -/
theorem Place.Accurate.error (h : place.Accurate source) {error : ParseError}
    (hoffset : error.offset = place.offset) (hposition : error.position = .ofPlace source place) :
    error.Accurate source := by
  have hboundary := h.1
  rw [← hoffset] at hboundary
  exact ⟨hboundary.le, hboundary, by rw [hposition, h.ofPlace_eq, hoffset]⟩

/-- A text without line ends does not change the line. -/
theorem Place.after_of_oneLine (place : Place) (h : text.OneLine) :
    place.after text = { place with offset := place.offset + Text.size text } := by
  fun_induction Place.after place text with
  | case1 => rfl
  | case2 place c hend => rw [h c List.mem_cons_self] at hend; cases hend
  | case3 place c hend => simp [Place.afterChar]
  | case4 place c d rest hend => rw [h c List.mem_cons_self] at hend; cases hend
  | case5 place c d rest hend => rw [h c List.mem_cons_self] at hend; cases hend
  | case6 place c d rest hend ih =>
    rw [ih (List.forall_mem_cons.mp h).2]
    simp [Place.afterChar, Nat.add_assoc]

/-- Where a text is marked, what is behind a part of it is marked behind that part. -/
theorem Place.Marks.after_take (h : place.Marks source text) {count : Nat} (hparted : text.PartedAt count) :
    (place.after (text.take count)).Marks source (text.drop count) := by
  rw [← List.take_append_drop count text] at h
  exact h.after hparted

/-- What cannot be read in a lexeme is reported accurately. -/
theorem Fault.accurate {fault : Fault} (h : place.Marks source text) (hparted : text.PartedAt fault.read)
    (hline : fault.blamesStart = true → Text.OneLine (text.take fault.read)) :
    (fault.toError source place text).Accurate source := by
  cases hblames : fault.blamesStart with
  | false =>
    refine (h.after_take hparted).accurate.error ?_ ?_ <;>
      simp only [toError, hblames, Bool.false_eq_true, if_false] <;> rfl
  | true =>
    refine h.accurate.error ?_ ?_
    · simp only [toError, hblames, if_true]
    · simp only [toError, hblames, if_true, stop, Place.after_of_oneLine _ (hline hblames)]
      rfl

/-! ## Between tokens -/

namespace Trivia

/-- Along a row that divides no line break every comment stands between two accurate places. -/
theorem marks_collect (options : ParseOptions) {row : List (Text × Trivium)} (hrow : RowParted row behind)
    (h : place.Marks source ((row.map Prod.fst).flatten ++ behind)) :
    (collect options source place row).2.Marks source behind ∧
      ∀ comment ∈ (collect options source place row).1, comment.placement.Accurate source := by
  induction row generalizing place with
  | nil => exact ⟨h, List.forall_mem_nil _⟩
  | cons first others ih =>
    obtain ⟨text, trivium⟩ := first
    rw [List.map_cons, List.flatten_cons, List.append_assoc] at h
    have hafter := h.after hrow.1
    obtain ⟨hlast, hcomments⟩ := ih hrow.2 hafter
    cases trivium with
    | blank => exact ⟨hlast, hcomments⟩
    | comment value =>
      exact ⟨hlast, List.forall_mem_cons.mpr ⟨h.accurate.between hafter.accurate options, hcomments⟩⟩

/-- A token begins at an accurate place, and so do the comments before it. -/
theorem marks_read (options : ParseOptions) (h : place.Marks source text) :
    (read options source place text).stop.Marks source (Trivia.behind text) ∧
      ∀ comment ∈ (read options source place text).comments, comment.placement.Accurate source := by
  have hrow := rowParted_pieces Trivium.piece_parts 0 text
  rw [Nat.zero_add, ← Trivia.behind] at hrow
  rw [← covered_append_behind text] at h
  obtain ⟨hstop, hcomments⟩ := marks_collect options hrow h
  refine ⟨hstop, fun comment hmem => hcomments comment ?_⟩
  simp only [read] at hmem
  split at hmem
  · exact hmem
  · cases hmem

end Trivia

namespace Lexer

variable {lexer after : Lexer} {token : Token} {error : ParseError}

/-- A lexer that stands at an accurate place, with a text behind it that does not go on with the line
break before it, and has met comments at accurate places. -/
structure Placed (lexer : Lexer) (text : Text) : Prop where
  rest_eq : lexer.rest = some text
  marks : lexer.place.Marks lexer.source text
  comments : ∀ comment ∈ lexer.comments, comment.placement.Accurate lexer.source

/-- A lexer placed in a text stands in it. -/
theorem Placed.sited (h : lexer.Placed text) : lexer.Sited text := by
  obtain ⟨before, hsource, hplace, -⟩ := h.marks
  exact ⟨h.rest_eq, before, hsource, by rw [hplace]; exact (Scan.of_line before).1⟩

/-- A placed lexer stays so when its comments are taken out. -/
theorem Placed.drain (h : lexer.Placed text) : lexer.drain.2.Placed text :=
  ⟨h.rest_eq, h.marks, List.forall_mem_nil _⟩

/-- A lexer begins at an accurate place, also behind a line that it passes over. -/
theorem placed_start (options : ParseOptions) (source : Text) :
    ∃ text, (start options source).Placed text := by
  by_cases hshebang : source.take 2 = ['#', '!']
  · rw [start_of_shebang hshebang]
    refine ⟨_, rfl, ?_, List.forall_mem_nil _⟩
    have hline := Trivium.oneLine_restOfLine source
    have htake : source.take (Trivium.restOfLine source).length = Trivium.restOfLine source :=
      (List.prefix_iff_eq_take.mp (List.takeWhile_prefix _)).symm
    have hmarks := (Place.marks_start source).after_take hline.partedAt
    rw [Place.after_of_oneLine _ hline, htake] at hmarks
    simp only [Place.start, Nat.zero_add] at hmarks ⊢
    exact hmarks
  · rw [start_of_not_shebang hshebang]
    refine ⟨source, ?_, Place.marks_start source, List.forall_mem_nil _⟩
    cases source <;> rfl

/-! ## One token -/

/-- A placed lexer is placed behind its trivia, and its comments are accurate. -/
theorem Placed.trivia (h : lexer.Placed text) :
    (lexer.trivia text).stop.Marks lexer.source (Trivia.behind text) ∧
      ∀ comment ∈ lexer.comments ++ (lexer.trivia text).comments,
        comment.placement.Accurate lexer.source := by
  obtain ⟨hstop, hcomments⟩ := Trivia.marks_read lexer.options h.marks
  exact ⟨hstop, List.forall_mem_append.mpr ⟨h.comments, hcomments⟩⟩

/-- A token stands between two accurate places, and behind it the lexer stands at one. -/
theorem Placed.next (h : lexer.Placed text) (hn : lexer.next = (.ok token, after)) :
    token.start.Accurate lexer.source ∧ token.stop.Accurate lexer.source ∧
      ∃ rest, after.Placed rest := by
  obtain ⟨-, value, length, hread, rfl, rfl⟩ := (next_eq_ok h.rest_eq).mp hn
  obtain ⟨hstart, hcomments⟩ := h.trivia
  have hparted := Lexeme.partedAt_read lexer.options (lexer.trivia text).stop.line
    (Trivia.behind text)
  rw [hread] at hparted
  have hstop := hstart.after_take hparted
  exact ⟨hstart.accurate, hstop.accurate, _, rfl, hstop, hcomments⟩

/-- What fails is a lexeme, or a comment that is never closed. -/
theorem fault_of_next (h : lexer.rest = some text) (hn : lexer.next = (.error error, after)) :
    ∃ fault : Fault, (fault.blamesStart = false ∧ (Trivia.behind text).length ≤ fault.read ∨
        Lexeme.read lexer.options (lexer.trivia text).stop.line (Trivia.behind text) =
          .error fault) ∧
      error = fault.toError lexer.source (lexer.trivia text).stop (Trivia.behind text) := by
  have hrest : (lexer.trivia text).rest = Trivia.behind text := rfl
  simp only [Lexer.next, h] at hn
  rw [← Lexer.trivia, hrest] at hn
  split at hn
  · cases hn
    exact ⟨_, .inl ⟨rfl, Nat.le_refl _⟩, rfl⟩
  · cases hr : Lexeme.read lexer.options (lexer.trivia text).stop.line (Trivia.behind text) with
    | ok found => simp [hr] at hn
    | error fault =>
      simp only [hr] at hn
      cases hn
      exact ⟨fault, .inr rfl, rfl⟩

/-- What cannot be read is reported accurately. -/
theorem Placed.failed (h : lexer.Placed text) (hn : lexer.next = (.error error, after)) :
    error.Accurate lexer.source := by
  obtain ⟨fault, hfault, rfl⟩ := fault_of_next h.rest_eq hn
  obtain ⟨hstart, -⟩ := h.trivia
  rcases hfault with ⟨hblames, hall⟩ | hread
  · refine Fault.accurate hstart (Text.partedAt_of_length_le hall) fun hstarts => ?_
    rw [hblames] at hstarts
    cases hstarts
  · have hparted := Lexeme.partedAt_read lexer.options (lexer.trivia text).stop.line
      (Trivia.behind text)
    rw [hread] at hparted
    exact Fault.accurate hstart hparted (Lexeme.oneLine_of_blamesStart hread)

end Lexer

end LuaSyntax
