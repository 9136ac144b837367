import LuaSyntax.Proofs.Reading.Guarded.Lexemes
import LuaSyntax.Proofs.Reading.Guarded.Trivia
import LuaSyntax.Proofs.Reading.Slices

/-!
# Guarded lexers

Reading a token is passing over what stands before it and reading its lexeme. An error does not end it: the next call
goes on where reading has come to, in the middle of a lexeme as it may be. It always is a place between two characters
that divides no line break, and no more is needed to go on.

## Main statements

- `Guarded.token_next`: a guarded lexer has a result, and it is the one that a lexer has.
- `Guarded.calls_within`: so it goes on for every number of calls, errors among them, and never leaves the source,
  cuts a character in two or counts further than its numbers go.
-/

namespace LuaSyntax

namespace Guarded

variable (source : Text)

/-- Passes over the first line if it names an interpreter. -/
def shebang : Guarded Unit := do
  let place ← here
  if place.offset = 0 && List.isPrefixOf ['#', '!'] source.latin then skip source fun c => !(Text.isLineEnd c)
  else pure ()

/-- Reads one token. -/
def token (options : ParseOptions) : Guarded Token := do
  trivia source options (turns source)
  let start ← here
  let value ← lexeme source options
  let stop ← here
  let first ← word start.offset
  let last ← word stop.offset
  check (first ≤ last)
  let lexeme ← given (source.slice? first last)
  pure { value, start, stop, lexeme := String.ofList lexeme }

/-- What some calls give one after the other, whether tokens or errors, each with where it leads. -/
def calls (options : ParseOptions) : Nat → Cursor → Option (List (Except ParseError Token × Cursor))
  | 0, _ => some []
  | count + 1, cursor => do
    let call ← token source options cursor
    let others ← calls options count call.2
    some (call :: others)

/-- The calls of a lexer at the beginning of a source, with where it begins. -/
def lex (options : ParseOptions) (count : Nat) : Option (Cursor × List (Except ParseError Token × Cursor)) := do
  let opening ← shebang source ⟨.start, []⟩
  let others ← calls source options count opening.2
  some (opening.2, others)

end Guarded

namespace Lexer

/-- Where a lexer stands, and the comments it has met. -/
def cursor (lexer : Lexer) : Cursor := ⟨lexer.place, lexer.comments⟩

/-- What some calls give one after the other, whether tokens or errors, each with the lexer that it leads to. -/
def calls : Nat → Lexer → List (Except ParseError Token × Lexer)
  | 0, _ => []
  | count + 1, lexer => lexer.next :: calls count lexer.next.2

variable {lexer : Lexer} {text : Text} {fault : Fault}

/-! ## Failing -/

/-- Whether a lexer comes upon something that it cannot read. -/
def Refuses (lexer : Lexer) (text : Text) (fault : Fault) : Prop :=
  (lexer.trivia text).unfinished = true ∧ fault = (lexer.trivia text).fault ∨
    (lexer.trivia text).unfinished = false ∧
      Lexeme.read lexer.options (lexer.trivia text).stop.line (Trivia.behind text) = .error fault

/-- A lexer that fails stands where reading has come to. -/
theorem next_of_refuses (h : lexer.rest = some text) (hfault : lexer.Refuses text fault) : lexer.next =
    (.error (fault.toError lexer.source (lexer.trivia text).stop (Trivia.behind text)), lexer.behind text fault.read) := by
  have hrest : (lexer.trivia text).rest = Trivia.behind text := rfl
  simp only [next, h]
  rw [← trivia, hrest]
  obtain ⟨hopen, rfl⟩ | ⟨hclosed, hread⟩ := hfault
  · rw [if_pos hopen]
    rfl
  · rw [if_neg (by rw [hclosed]; exact Bool.false_ne_true), hread]
    rfl

/-- A lexer reads a token, or comes upon something that it cannot read. -/
theorem next_cases (h : lexer.rest = some text) :
    (∃ value length, (lexer.trivia text).unfinished = false ∧
        Lexeme.read lexer.options (lexer.trivia text).stop.line (Trivia.behind text) = .ok (value, length) ∧
        lexer.next = (.ok (lexer.tokenOf text value length), lexer.behind text length)) ∨
      ∃ fault, lexer.Refuses text fault ∧ lexer.next =
        (.error (fault.toError lexer.source (lexer.trivia text).stop (Trivia.behind text)), lexer.behind text fault.read) := by
  cases hopen : (lexer.trivia text).unfinished with
  | true =>
    have hfault : lexer.Refuses text (lexer.trivia text).fault := .inl ⟨hopen, rfl⟩
    exact .inr ⟨_, hfault, next_of_refuses h hfault⟩
  | false =>
    cases hread : Lexeme.read lexer.options (lexer.trivia text).stop.line (Trivia.behind text) with
    | ok found =>
      obtain ⟨value, length⟩ := found
      exact .inl ⟨value, length, rfl, rfl, (next_eq_ok h).mpr ⟨hopen, value, length, hread, rfl, rfl⟩⟩
    | error fault =>
      have hfault : lexer.Refuses text fault := .inr ⟨hopen, hread⟩
      exact .inr ⟨_, hfault, next_of_refuses h hfault⟩

/-- A refused text may be cut off where its fault is. -/
theorem partedAt_of_refuses (h : lexer.Refuses text fault) : (Trivia.behind text).PartedAt fault.read := by
  obtain ⟨-, rfl⟩ | ⟨-, hread⟩ := h
  · exact Text.partedAt_of_length_le (Nat.le_refl _)
  · have hparted := Lexeme.partedAt_read lexer.options (lexer.trivia text).stop.line (Trivia.behind text)
    rwa [hread] at hparted

/-- Behind a call, whatever it gives, a lexer stands further on, at a place that divides no line break. -/
theorem next_eq_behind (h : lexer.rest = some text) :
    ∃ count, lexer.next.2 = lexer.behind text count ∧ (Trivia.behind text).PartedAt count := by
  obtain ⟨value, length, -, hread, hnext⟩ | ⟨fault, hfault, hnext⟩ := next_cases h
  · have hparted := Lexeme.partedAt_read lexer.options (lexer.trivia text).stop.line (Trivia.behind text)
    rw [hread] at hparted
    exact ⟨length, by rw [hnext], hparted⟩
  · exact ⟨fault.read, by rw [hnext], partedAt_of_refuses hfault⟩

/-- Behind the next token a placed lexer is placed. -/
theorem Placed.next_placed (h : lexer.Placed text) : ∃ rest, lexer.next.2.Placed rest := by
  obtain ⟨count, hnext, hparted⟩ := next_eq_behind h.rest_eq
  obtain ⟨hstart, hcomments⟩ := h.trivia
  rw [hnext]
  exact ⟨_, rfl, hstart.after_take hparted, hcomments⟩

end Lexer

/-! ## One call -/

namespace Guarded

variable {lexer : Lexer} {text rest : Text} {start stop : Place} {fault : Fault}

/-- Where reading of a lexeme has come to is where its fault is. -/
theorem told_eq_toError {source : Text} (hstart : start.Marks source text) (hparted : text.PartedAt fault.read)
    (hstop : stop.Marks source (text.drop fault.read)) :
    fault.told source start stop = fault.toError source start text := by
  rw [hstop.unique (hstart.after_take hparted)]
  rfl

/-- A call has a result, and it is that of a lexer. -/
theorem token_next (h : lexer.Placed text) (hsmall : lexer.source.size + 1 < 2 ^ 32) :
    token lexer.source lexer.options lexer.cursor = some (lexer.next.1, lexer.next.2.cursor) := by
  obtain ⟨hstart, -⟩ := h.trivia
  have hoffset := h.marks.offset_add
  have hpasses : Passes lexer.source (trivia lexer.source lexer.options (turns lexer.source)) lexer.place
      (lexer.trivia text) := passes_trivia hsmall (lt_turns (by omega)) h.marks
  have hlexeme := yields_lexeme hsmall hstart lexer.options
  -- what is left to show once the result and the place are known
  suffices hkeeps : (token lexer.source lexer.options).Keeps lexer.place lexer.next.1 lexer.next.2.place
      (lexer.trivia text).comments by
    obtain ⟨count, hbehind, -⟩ := Lexer.next_eq_behind h.rest_eq
    rw [Lexer.cursor, hkeeps lexer.comments, Lexer.cursor, hbehind]
    rfl
  obtain ⟨value, length, hclosed, hread, hnext⟩ | ⟨fault, hfault, hnext⟩ := Lexer.next_cases h.rest_eq
  · have hparted := Lexeme.partedAt_read lexer.options (lexer.trivia text).stop.line (Trivia.behind text)
    rw [Passes, if_neg (by rw [hclosed]; exact Bool.false_ne_true)] at hpasses
    rw [hread, reach] at hparted
    rw [hread] at hlexeme
    obtain ⟨stop, hgives, hstop⟩ := hlexeme _ _ hstart hstart
    rw [reach] at hstop
    obtain rfl := hstop.unique (hstart.after_take hparted)
    rw [hnext, ← List.append_nil (lexer.trivia text).comments]
    have hoffset' := hstop.offset_add
    have hle : (lexer.trivia text).stop.offset ≤
        ((lexer.trivia text).stop.after ((Trivia.behind text).take length)).offset := by
      rw [Place.offset_after]
      omega
    have hslice := slice?_of_marks (List.take_append_drop length (Trivia.behind text) ▸ hstart) hstop
    exact hpasses.bind ((gives_here _).bind_keeps (hgives.bind_keeps ((gives_here _).bind_keeps
      ((gives_word (by omega) _).bind_keeps ((gives_word (by omega) _).bind_keeps
        ((gives_check hle _).bind_keeps ((gives_given hslice _).bind_keeps (gives_pure _ _).keeps)))))))
  · have hparted := Lexer.partedAt_of_refuses hfault
    rw [hnext]
    obtain ⟨hopen, rfl⟩ | ⟨hclosed, hread⟩ := hfault
    · rw [Passes, if_pos hopen] at hpasses
      obtain ⟨stop, hstop, hkeeps⟩ := hpasses
      have hend : (Trivia.behind text).drop (lexer.trivia text).fault.read = [] := List.drop_length
      rw [← hend] at hstop
      have htold := told_eq_toError hstart hparted hstop
      obtain rfl := hstop.unique (hstart.after_take hparted)
      rw [← htold]
      exact hkeeps.ends
    · rw [Passes, if_neg (by rw [hclosed]; exact Bool.false_ne_true)] at hpasses
      rw [hread] at hlexeme
      obtain ⟨stop, hgives, hstop⟩ := hlexeme _ _ hstart hstart
      have htold := told_eq_toError hstart hparted hstop
      obtain rfl := hstop.unique (hstart.after_take hparted)
      rw [← htold, ← List.append_nil (lexer.trivia text).comments]
      exact hpasses.bind ((gives_here _).bind_keeps hgives.keeps.ends)

/-! ## All calls -/

/-- A first line that names an interpreter is passed over as a lexer does that begins. -/
theorem shebang_start (options : ParseOptions) (source : Text) :
    shebang source ⟨.start, []⟩ = some (.ok (), (Lexer.start options source).cursor) := by
  obtain ⟨text, hplaced⟩ := Lexer.placed_start options source
  have hmarks := hplaced.marks
  have hrest := hplaced.rest_eq
  rw [Lexer.source_start] at hmarks
  have hlatin : List.isPrefixOf ['#', '!'] source.latin = List.isPrefixOf ['#', '!'] source :=
    Text.isPrefixOf_latin (List.forall_mem_cons.mpr ⟨by decide, List.forall_mem_singleton.mpr (by decide)⟩) source
  suffices hgives : (shebang source).Gives .start (.ok ()) (Lexer.start options source).place by
    rw [hgives [], Lexer.cursor, Lexer.comments_start]
  refine (gives_here Place.start).bind ?_
  rw [hlatin]
  by_cases hshebang : source.take 2 = ['#', '!']
  · have hnamed : List.isPrefixOf ['#', '!'] source = true := by
      rw [List.isPrefixOf_iff_prefix, List.prefix_iff_eq_take]
      exact hshebang.symm
    rw [Lexer.start_of_shebang hshebang, Option.some.injEq] at hrest
    obtain ⟨stop, hskip, hstop⟩ := leads_skip uniform_not_isLineEnd (fun c h => by simpa using h) _
      (Place.marks_start source)
    rw [← Text.drop_countWhile] at hstop
    rw [← hrest] at hmarks
    rw [hnamed, if_pos (show (decide (Place.start.offset = 0) && true) = true from rfl), ← hstop.unique hmarks]
    exact hskip
  · have hnamed : List.isPrefixOf ['#', '!'] source = false := by
      rw [Bool.eq_false_iff, ne_eq, List.isPrefixOf_iff_prefix, List.prefix_iff_eq_take]
      exact fun h => hshebang h.symm
    rw [hnamed, Bool.and_false, if_neg Bool.false_ne_true, Lexer.start_of_not_shebang hshebang]
    exact gives_pure () _

/-- So many calls have results, and they are those of a lexer. -/
theorem calls_next (h : lexer.Placed text) (hsmall : lexer.source.size + 1 < 2 ^ 32) (count : Nat) :
    calls lexer.source lexer.options count lexer.cursor =
      some ((lexer.calls count).map fun call => (call.1, call.2.cursor)) := by
  induction count generalizing lexer text with
  | zero => rfl
  | succ count ih =>
    obtain ⟨rest, hnext⟩ := h.next_placed
    have hothers := ih hnext
    obtain ⟨length, hbehind, -⟩ := Lexer.next_eq_behind h.rest_eq
    have hsource : lexer.next.2.source = lexer.source := by rw [hbehind]; rfl
    have hoptions : lexer.next.2.options = lexer.options := by rw [hbehind]; rfl
    rw [hsource, hoptions] at hothers
    rw [calls, token_next h hsmall, Option.bind_eq_bind, Option.bind_some, hothers hsmall]
    rfl

end Guarded

/-! ## Bounds -/

/-- Whether a lexer stands between two characters of a source, behind the beginning of its line, and has met comments
that stand there as they are written. -/
structure Cursor.Within (options : ParseOptions) (source : Text) (cursor : Cursor) : Prop where
  lineStart_le : cursor.place.lineStart ≤ cursor.place.offset
  offset_le : cursor.place.offset ≤ source.size
  lineStart : source.IsBoundary cursor.place.lineStart
  offset : source.IsBoundary cursor.place.offset
  comments : ∀ comment ∈ cursor.comments, comment.Verbatim options source

/-- Whether what a call gives belongs between two characters of a source: a token with the text that stands there, an
error with its offset. -/
structure Text.Delivers (source : Text) (result : Except ParseError Token) : Prop where
  token : ∀ token, result = .ok token → source.Shows token.span token.lexeme.toList
  error : ∀ error, result = .error error → source.IsBoundary error.offset

/-- Where a text is marked, its line start and its offset are bounds of characters in the source. -/
theorem Place.Marks.bounds {source rest : Text} {place : Place} (h : place.Marks source rest) :
    place.lineStart ≤ place.offset ∧ place.offset ≤ source.size ∧ source.IsBoundary place.lineStart ∧
      source.IsBoundary place.offset := by
  have hoffset := h.offset_add
  obtain ⟨before, line, rfl, hstart, hstop⟩ := h.parts
  refine ⟨by omega, by omega, ⟨before, line ++ rest, rfl, hstart.symm⟩, before ++ line, rest, ?_, ?_⟩
  · rw [List.append_assoc]
  · rw [Text.size_append, hstop]

namespace Lexer

variable {lexer : Lexer} {text : Text}

/-- A lexer that has met only comments that stand in its source. -/
structure Stocked (lexer : Lexer) (text : Text) : Prop extends Placed lexer text where
  verbatim : ∀ comment ∈ lexer.comments, comment.Verbatim lexer.options lexer.source

/-- What a stocked lexer reads next stays within its source. -/
theorem Stocked.within (h : lexer.Stocked text) : lexer.cursor.Within lexer.options lexer.source := by
  obtain ⟨hlineStart, hle, hline, hoffset⟩ := h.marks.bounds
  exact ⟨hlineStart, hle, hline, hoffset, h.verbatim⟩

/-- What a stocked lexer reads next is placed in the source. -/
theorem Stocked.delivers (h : lexer.Stocked text) : lexer.source.Delivers lexer.next.1 where
  token token hnext :=
    (h.sited.verbatim (show lexer.next = (.ok token, lexer.next.2) from Prod.ext hnext rfl)).1.shows
  error error hnext := (h.failed (show lexer.next = (.error error, lexer.next.2) from Prod.ext hnext rfl)).boundary

/-- A call keeps what is known of a lexer, and leads it no way back. -/
theorem Stocked.next (h : lexer.Stocked text) :
    (∃ rest, lexer.next.2.Stocked rest) ∧ lexer.next.2.options = lexer.options ∧
      lexer.next.2.source = lexer.source ∧ lexer.place.offset ≤ lexer.next.2.place.offset := by
  obtain ⟨rest, hplaced⟩ := h.next_placed
  obtain ⟨count, hnext, -⟩ := next_eq_behind h.rest_eq
  have hoffset := Trivia.offset_stop lexer.options lexer.source lexer.place text
  have hsize := congrArg Text.size (Trivia.covered_append_behind text)
  rw [Text.size_append] at hsize
  rw [hnext] at hplaced ⊢
  refine ⟨⟨rest, hplaced, List.forall_mem_append.mpr ⟨h.verbatim, h.sited.verbatim_trivia⟩⟩, rfl, rfl, ?_⟩
  rw [behind, Place.offset_after, trivia]
  omega

/-- Along all calls a lexer stays within its source, and never goes back. -/
theorem Stocked.calls (h : lexer.Stocked text) (count : Nat) :
    (lexer.cursor :: (lexer.calls count).map fun call => call.2.cursor).IsChain
        (fun a b => a.place.offset ≤ b.place.offset) ∧
      ∀ call ∈ lexer.calls count,
        call.2.cursor.Within lexer.options lexer.source ∧ lexer.source.Delivers call.1 := by
  induction count generalizing lexer text with
  | zero => exact ⟨.singleton _, List.forall_mem_nil _⟩
  | succ count ih =>
    obtain ⟨⟨rest, hnext⟩, hoptions, hsource, hle⟩ := h.next
    obtain ⟨hchain, hcalls⟩ := ih hnext
    have hwithin := hnext.within
    rw [hoptions, hsource] at hcalls hwithin
    exact ⟨.cons_cons hle hchain, List.forall_mem_cons.mpr ⟨⟨hwithin, h.delivers⟩, hcalls⟩⟩

/-- The lexer at the start is stocked. -/
theorem stocked_start (options : ParseOptions) (source : Text) : ∃ text, (start options source).Stocked text := by
  obtain ⟨text, hplaced⟩ := placed_start options source
  refine ⟨text, hplaced, ?_⟩
  rw [comments_start]
  exact List.forall_mem_nil _

end Lexer

namespace Guarded

/-- However a source is read token by token, errors among them, nothing in it goes wrong unseen. Whatever is cut out of
the source begins and ends between two characters of it, and every number fits, since there is no result otherwise. Each
call has the result that it has for a lexer, no place is behind an earlier one, and every place, token, comment and
error lies between two characters of the source. -/
theorem calls_within (options : ParseOptions) {source : Text} (hsmall : source.size < 2 ^ 32 - 1) (count : Nat) :
    ∃ opening made, lex source options count = some (opening, made) ∧
      opening = (Lexer.start options source).cursor ∧
      made = ((Lexer.start options source).calls count).map (fun call => (call.1, call.2.cursor)) ∧
      (opening :: made.map Prod.snd).Pairwise (fun a b => a.place.offset ≤ b.place.offset) ∧
      opening.Within options source ∧
      ∀ call ∈ made, call.2.Within options source ∧ source.Delivers call.1 := by
  obtain ⟨text, hstart⟩ := Lexer.stocked_start options source
  obtain ⟨hchain, hcalls⟩ := hstart.calls count
  have hmade := calls_next hstart.toPlaced (by rw [Lexer.source_start]; omega) count
  have hwithin := hstart.within
  rw [Lexer.source_start, Lexer.options_start] at hmade hwithin hcalls
  refine ⟨_, _, ?_, rfl, rfl, ?_, hwithin, ?_⟩
  · rw [lex, shebang_start options, Option.bind_eq_bind, Option.bind_some, hmade]
    rfl
  · have htrans : Trans (fun a b : Cursor => a.place.offset ≤ b.place.offset)
        (fun a b : Cursor => a.place.offset ≤ b.place.offset) (fun a b : Cursor => a.place.offset ≤ b.place.offset) :=
      ⟨Nat.le_trans⟩
    rw [List.map_map]
    exact hchain.pairwise
  · rw [List.forall_mem_map]
    exact hcalls

/-- A string with a character of two bytes that its line cuts short, and a long comment that is never closed: behind two
errors a third call finds the end of the input. -/
theorem calls_within_cut_string :
    Text.size ['"', 'é', '\n', '-', '-', '[', '['] < 2 ^ 32 - 1 ∧
      ∃ opening made, lex ['"', 'é', '\n', '-', '-', '[', '['] {} 3 = some (opening, made) ∧
        opening = (Lexer.start {} ['"', 'é', '\n', '-', '-', '[', '[']).cursor ∧
        made = ((Lexer.start {} ['"', 'é', '\n', '-', '-', '[', '[']).calls 3).map
          (fun call => (call.1, call.2.cursor)) ∧
        (opening :: made.map Prod.snd).Pairwise (fun a b => a.place.offset ≤ b.place.offset) ∧
        opening.Within {} ['"', 'é', '\n', '-', '-', '[', '['] ∧
        ∀ call ∈ made, call.2.Within {} ['"', 'é', '\n', '-', '-', '[', '['] ∧
          Text.Delivers ['"', 'é', '\n', '-', '-', '[', '['] call.1 := by
  have hsmall : Text.size ['"', 'é', '\n', '-', '-', '[', '['] < 2 ^ 32 - 1 := by decide
  exact ⟨hsmall, calls_within {} hsmall 3⟩

end Guarded

end LuaSyntax
