import LuaSyntax.Proofs.Reading.Guarded.Brackets
import LuaSyntax.Proofs.Reading.Lengths

/-!
# Guarded reading between tokens

Blanks, line breaks and comments are passed over one after the other. A comment that is kept has two pieces cut out of
the source, its value and all of it, and two columns counted; these are pieces and columns because a comment begins and
ends between two characters, on lines whose beginnings are known.
-/

namespace LuaSyntax

namespace Guarded

variable {α β : Type} (source : Text)

/-- The position of a place. -/
def positionAt (place : Place) : Guarded Position := do
  let column ← given (source.column? place.lineStart place.offset)
  pure ⟨place.line, column⟩

/-- The positions of two places, if these are recorded. -/
def locationBetween (options : ParseOptions) (start stop : Place) : Guarded (Option Location) :=
  if options.recordLocations then do
    let first ← positionAt source start
    let last ← positionAt source stop
    pure (some ⟨first, last⟩)
  else pure none

/-- The offsets of two places, if these are recorded. -/
def rangeBetween (options : ParseOptions) (start stop : Place) : Guarded (Option Span) :=
  if options.recordRanges then do
    let first ← word start.offset
    let last ← word stop.offset
    check (first ≤ last)
    pure (some ⟨first, last⟩)
  else pure none

/-- Keeps the comment between two places whose value stands between two offsets, if comments are collected. -/
def record (options : ParseOptions) (start stop : Place) (first last : Nat) : Guarded Unit :=
  if options.collectComments then do
    let location ← locationBetween source options start stop
    let range ← rangeBetween options start stop
    let value ← given (source.slice? first last)
    let raw ← given (source.slice? start.offset stop.offset)
    keep { value := String.ofList value, raw := String.ofList raw, placement := ⟨location, range⟩ }
  else pure ()

/-- Passes over the rest of a line, and gives the offsets of it. -/
def lineRest : Guarded (Nat × Nat) := do
  let start ← here
  skip source fun c => !(Text.isLineEnd c)
  let stop ← here
  pure (start.offset, stop.offset)

/-- The offsets of the content of a long bracket, or those of the rest of a line if there is none. -/
def bracketOrLine : Option (Nat × Nat) → Guarded (Nat × Nat)
  | some range => pure range
  | none => lineRest source

/-- Passes over a comment behind its dashes, and gives the offsets of its value. -/
def commentBody : Guarded (Nat × Nat) := do
  if (← peek source 0) == some '[' then do
    let range ← longBracket source true
    bracketOrLine source range
  else lineRest source

/-- Reads a comment. -/
def comment (options : ParseOptions) : Guarded Unit := do
  let start ← here
  advance source 2
  let range ← commentBody source
  let stop ← here
  record source options start stop range.1 range.2

/-- Passes over what stands before a token. -/
def trivia (options : ParseOptions) : Nat → Guarded Unit
  | 0 => undefined
  | turns + 1 => do
    match ← peek source 0 with
    | none => pure ()
    | some c =>
      if Text.isBlank c then do
        advance source 1
        trivia options turns
      else if Text.isLineEnd c then do
        let _ ← breakLine source
        trivia options turns
      else do
        let second ← peek source 1
        if c == '-' && second == some '-' then do
          comment source options
          trivia options turns
        else pure ()

/-- Whether reading from one place has a result, comes to another place, and has kept some comments. -/
def Keeps (m : Guarded α) (place : Place) (result : Except ParseError α) (stop : Place) (kept : List Comment) : Prop :=
  ∀ comments, m ⟨place, comments⟩ = some (result, ⟨stop, comments ++ kept⟩)

variable {source} {m : Guarded α} {f : α → Guarded β} {v : α} {result : Except ParseError β} {error : ParseError}
  {place stop last start : Place} {kept more : List Comment} {text rest body : Text} {options : ParseOptions}

/-! ## Keeping -/

/-- What gives a result keeps no comment. -/
theorem Gives.keeps {result : Except ParseError α} (h : m.Gives place result stop) : m.Keeps place result stop [] :=
  fun comments => by rw [List.append_nil, h comments]

/-- What keeps comments goes on with more. -/
theorem Keeps.bind (h : m.Keeps place (.ok v) stop kept) (h' : (f v).Keeps stop result last more) :
    (m >>= f).Keeps place result last (kept ++ more) := fun comments => by
  rw [← List.append_assoc]
  refine Eq.trans ?_ (h' (comments ++ kept))
  exact (congrArg (Option.bind · _) (h comments)).trans rfl

/-- What keeps comments and fails keeps those. -/
theorem Keeps.ends (h : m.Keeps place (.error error) stop kept) : (m >>= f).Keeps place (.error error) stop kept :=
  fun comments => (congrArg (Option.bind · _) (h comments)).trans rfl

/-- What gives a result goes on with comments kept. -/
theorem Gives.bind_keeps (h : m.Gives place (.ok v) stop) (h' : (f v).Keeps stop result last kept) :
    (m >>= f).Keeps place result last kept := h.keeps.bind h'

/-- To keep a comment keeps it. -/
theorem keeps_keep (comment : Comment) (place : Place) : (keep comment).Keeps place (.ok ()) place [comment] :=
  fun _ => rfl

/-! ## Placements -/

/-- The position of a place where the reader stands is computed without an overflow. -/
theorem gives_positionAt (hsmall : source.size + 1 < 2 ^ 32) (h : start.Marks source text) (place : Place) :
    (positionAt source start).Gives place (.ok (.ofPlace source start)) place :=
  (gives_given (column?_of_marks hsmall h) place).bind (gives_pure _ place)

/-- The location between two places where the reader stands is computed without an overflow. -/
theorem gives_locationBetween (hsmall : source.size + 1 < 2 ^ 32) (hstart : start.Marks source text)
    (hstop : stop.Marks source rest) (options : ParseOptions) (place : Place) :
    (locationBetween source options start stop).Gives place
      (.ok (Placement.between options source start stop).location) place := by
  rw [locationBetween, Placement.between]
  split
  · exact (gives_positionAt hsmall hstart place).bind ((gives_positionAt hsmall hstop place).bind (gives_pure _ place))
  · exact gives_pure _ place

/-- The range between two places where the reader stands is computed without an overflow. -/
theorem gives_rangeBetween (hsmall : source.size + 1 < 2 ^ 32) (hstop : stop.Marks source rest)
    (hle : start.offset ≤ stop.offset) (options : ParseOptions) (place : Place) :
    (rangeBetween options start stop).Gives place
      (.ok (Placement.between options source start stop).range) place := by
  have hoffset := hstop.offset_add
  rw [rangeBetween, Placement.between]
  split
  · exact (gives_word (by omega) place).bind ((gives_word (by omega) place).bind
      ((gives_check hle place).bind (gives_pure _ place)))
  · exact gives_pure _ place

/-- The comments that are kept of a comment. -/
def recorded (options : ParseOptions) (source : Text) (start stop : Place) (value raw : Text) : List Comment :=
  if options.collectComments then
    [{ value := String.ofList value
       raw := String.ofList raw
       placement := .between options source start stop }]
  else []

/-- A slice between two places where the reader stands is the text between them. -/
theorem slice?_of_marks {a : Text} (hstart : start.Marks source (a ++ rest)) (hstop : stop.Marks source rest) :
    source.slice? start.offset stop.offset = some a := by
  have hslice := slice?_of_suffix hstart.suffix
  have hoffset := hstart.offset_add
  have hoffset' := hstop.offset_add
  rwa [show source.size - Text.size (a ++ rest) = start.offset by omega,
    show source.size - Text.size rest = stop.offset by omega] at hslice

/-- A comment is kept as it stands between its two places. -/
theorem keeps_record (hsmall : source.size + 1 < 2 ^ 32) {raw value : Text} {first last : Nat}
    (hstart : start.Marks source (raw ++ rest)) (hstop : stop.Marks source rest)
    (hvalue : source.slice? first last = some value) (options : ParseOptions) (place : Place) :
    (record source options start stop first last).Keeps place (.ok ()) place
      (recorded options source start stop value raw) := by
  have hoffset := hstart.offset_add
  have hoffset' := hstop.offset_add
  rw [Text.size_append] at hoffset
  rw [record, recorded]
  split
  · exact (gives_locationBetween hsmall hstart hstop options place).bind_keeps
      ((gives_rangeBetween hsmall hstop (by omega) options place).bind_keeps
        ((gives_given hvalue place).bind_keeps
          ((gives_given (slice?_of_marks hstart hstop) place).bind_keeps (keeps_keep _ place))))
  · exact (gives_pure () place).keeps

/-! ## Comments -/

/-- What a guarded reader finds behind two dashes: the offsets of the value of a comment. -/
inductive Commented (source : Text) (line : Nat) (body : Text) : Except Fault ((Nat × Nat) × Nat) → Prop
  | finished {value : Text} {length first last : Nat} (h : Trivium.comment? body = .item (.comment value) (length + 2))
      (hslice : source.slice? first last = some value) : Commented source line body (.ok ((first, last), length))
  | unfinished (h : Trivium.comment? body = .fail ()) : Commented source line body
      (.error (.after body body.length .unfinishedLongComment [(toString line).toList, "<eof>".toList]))

/-- To end no line does not tell apart the characters beyond ASCII. -/
theorem uniform_not_isLineEnd : Text.Uniform fun c => !(Text.isLineEnd c) := Text.ascii_isLineEnd.uniform_not

/-- The rest of a line is passed over as a whole. -/
theorem yields_lineRest (source body : Text) : Yields source body (lineRest source) body
    (.ok ((source.size - Text.size body, source.size - Text.size (body.drop (Trivium.restOfLine body).length)),
      (Trivium.restOfLine body).length)) := by
  have hdrop : body.drop (Trivium.restOfLine body).length = body.dropWhile fun c => !(Text.isLineEnd c) :=
    Text.drop_countWhile _ body
  refine yields_run uniform_not_isLineEnd (fun c h => by simpa using h) fun start stop hstart hstop => ?_
  have hoffset := hstart.offset_add
  have hoffset' := hstop.offset_add
  rw [← hdrop] at hoffset'
  rw [show source.size - Text.size body = start.offset by omega,
    show source.size - Text.size (body.drop (Trivium.restOfLine body).length) = stop.offset by omega]
  exact yields_pure hdrop _

/-- Where there is no long bracket a comment ends with its line. -/
theorem commented_line (hsuffix : body <:+ source) (h : LongBracket.read body = .absent) (line : Nat) :
    Commented source line body
      (.ok ((source.size - Text.size body, source.size - Text.size (body.drop (Trivium.restOfLine body).length)),
        (Trivium.restOfLine body).length)) := by
  have hparts : Trivium.restOfLine body ++ body.drop (Trivium.restOfLine body).length = body :=
    (List.prefix_append_drop (List.takeWhile_prefix _)).symm
  have hslice := @slice?_of_suffix source (body.drop (Trivium.restOfLine body).length) (Trivium.restOfLine body)
    (hparts.symm ▸ hsuffix)
  rw [hparts] at hslice
  refine .finished ?_ hslice
  rw [Trivium.comment?, h]

/-- A comment behind its dashes is read as by a reader of characters. -/
theorem yields_commentBody (hsmall : source.size + 1 < 2 ^ 32) (hplace : place.Marks source body) :
    ∃ result, Commented source place.line body result ∧ Yields source body (commentBody source) body result := by
  by_cases hbracket : (body.head? == some '[') = true
  · obtain ⟨rest, rfl⟩ : ∃ rest, body = '[' :: rest := by
      cases body with
      | nil => cases hbracket
      | cons c rest => exact ⟨rest, by simpa using hbracket⟩
    obtain ⟨result, hresult, hyields⟩ := @yields_longBracket source rest true place hsmall hplace
    have hbody {result' : Except Fault ((Nat × Nat) × Nat)}
        (h : Yields source ('[' :: rest) (longBracket source true >>= bracketOrLine source) ('[' :: rest) result') :
        Yields source ('[' :: rest) (commentBody source) ('[' :: rest) result' := by
      refine leads_peek.bind_yields ?_
      rw [Text.map_front_beq (by decide), if_pos hbracket]
      exact h
    cases hresult with
    | absent h =>
      exact ⟨_, commented_line hplace.suffix h _, hbody (hyields.bind (yields_lineRest source _))⟩
    | unfinished h =>
      refine ⟨_, .unfinished ?_, hbody hyields.ends⟩
      rw [Trivium.comment?, h]
    | bracket h hslice =>
      refine ⟨_, .finished ?_ hslice, hbody (hyields.bind (yields_pure rfl _))⟩
      rw [Trivium.comment?, h]
  · have habsent : LongBracket.read body = .absent := by
      cases body with
      | nil => rfl
      | cons c rest => exact LongBracket.read_absent_of_ne (by simpa using hbracket)
    refine ⟨_, commented_line hplace.suffix habsent _, leads_peek.bind_yields ?_⟩
    rw [Text.map_front_beq (by decide), if_neg hbracket]
    exact yields_lineRest source body

/-- A comment is kept with the value that a reader of characters finds. -/
theorem keeps_comment (hsmall : source.size + 1 < 2 ^ 32) {value : Text} {length : Nat}
    (hplace : place.Marks source ('-' :: '-' :: body)) (h : Trivium.comment? body = .item (.comment value) length)
    (hstop : stop.Marks source (('-' :: '-' :: body).drop length)) (options : ParseOptions) :
    (comment source options).Keeps place (.ok ()) stop
      (recorded options source place stop value (('-' :: '-' :: body).take length)) := by
  have hline : Text.OneLine ['-', '-'] := List.forall_mem_cons.mpr ⟨rfl, List.forall_mem_singleton.mpr rfl⟩
  have hadvance := @gives_advance source body ['-', '-'] place 2 hplace rfl
  have hbehind := @Place.Marks.over source body ['-', '-'] place hplace hline
  obtain ⟨result, hresult, hyields⟩ := yields_commentBody hsmall hbehind
  obtain ⟨last, hbody, hlast⟩ := hyields _ _ hbehind hbehind
  cases hresult with
  | unfinished h' =>
    rw [h] at h'
    cases h'
  | finished h' hslice =>
    rw [h] at h'
    cases h'
    obtain rfl := hlast.unique hstop
    have hstart := hplace
    rw [← List.take_append_drop (_ + 2) ('-' :: '-' :: body)] at hstart
    exact (gives_here place).bind_keeps (hadvance.bind_keeps (hbody.bind_keeps ((gives_here last).bind_keeps
      (keeps_record hsmall hstart hstop hslice options last))))

/-- A comment that is never closed is an error at the end of the source. -/
theorem gives_comment (hsmall : source.size + 1 < 2 ^ 32) (hplace : place.Marks source ('-' :: '-' :: body))
    (h : Trivium.comment? body = .fail ()) (options : ParseOptions) :
    ∃ stop, (comment source options).Gives place (.error ((Fault.after ('-' :: '-' :: body) (body.length + 2)
      .unfinishedLongComment [(toString place.line).toList, "<eof>".toList]).told source place stop)) stop ∧
      stop.Marks source [] := by
  have hline : Text.OneLine ['-', '-'] := List.forall_mem_cons.mpr ⟨rfl, List.forall_mem_singleton.mpr rfl⟩
  have hadvance := @gives_advance source body ['-', '-'] place 2 hplace rfl
  have hbehind := @Place.Marks.over source body ['-', '-'] place hplace hline
  obtain ⟨result, hresult, hyields⟩ := yields_commentBody hsmall hbehind
  obtain ⟨last, hbody, hlast⟩ := hyields _ _ hbehind hbehind
  cases hresult with
  | finished h' hslice =>
    rw [h] at h'
    cases h'
  | unfinished h' =>
    rw [reach, Fault.after, List.drop_length] at hlast
    exact ⟨last, (gives_here place).bind (hadvance.bind hbody.ends), hlast⟩

end Guarded

/-! ## Rows of trivia -/

/-- A comment has two characters at least, and lies in its text. -/
theorem Trivium.comment?_eq_item {body : Text} {value : Trivium} {length : Nat} (h : comment? body = .item value length) :
    ∃ content, value = .comment content ∧ 0 < length ∧ length ≤ body.length + 2 := by
  have hline := (List.takeWhile_prefix (l := body) fun c => !(Text.isLineEnd c)).length_le
  rw [comment?] at h
  split at h
  · cases h
    exact ⟨_, rfl, Nat.succ_pos _, Nat.add_le_add_right hline 2⟩
  · cases h
  · next hread =>
    cases h
    exact ⟨_, rfl, Nat.succ_pos _, Nat.add_le_add_right (LongBracket.length_le_of_read hread) 2⟩

/-- A piece at the front of a text is the first of a row. -/
theorem pieces_of_item {α ε : Type} {piece : Text → Piece α ε} {text : Text} {value : α} {length : Nat}
    (hpos : 0 < length) (hle : length ≤ text.length) (h : piece text = .item value length) :
    pieces piece 0 text = (pieces piece 0 (text.drop length)).cons (text.take length) value := by
  have hlength : (text.take length).length = length := List.length_take_of_le hle
  have hne : text.take length ≠ [] := List.length_pos_iff.mp (hlength.symm ▸ hpos)
  have hfirst := @pieces_of_first (text.drop length) α ε piece (text.take length) value hne
    (by rwa [List.take_append_drop, hlength])
  rwa [List.take_append_drop] at hfirst

namespace Trivia

variable {text value : Text} {length : Nat} {options : ParseOptions} {source : Text} {place : Place}

/-- A blank at the front changes only where reading begins. -/
theorem read_of_blank (hpos : 0 < length) (hle : length ≤ text.length) (h : Trivium.piece text = .item .blank length) :
    read options source place text = read options source (place.after (text.take length)) (text.drop length) := by
  have hfirst := pieces_of_item hpos hle h
  simp only [read, hfirst, Pieces.cons, Pieces.covered, List.map_cons, List.flatten_cons, List.length_append, collect,
    List.length_take_of_le hle]
  rw [← List.drop_drop]

/-- A comment at the front is one more that was read. -/
theorem read_of_comment (hpos : 0 < length) (hle : length ≤ text.length)
    (h : Trivium.piece text = .item (.comment value) length) :
    read options source place text =
      { read options source (place.after (text.take length)) (text.drop length) with
        comments := Guarded.recorded options source place (place.after (text.take length)) value (text.take length) ++
          (read options source (place.after (text.take length)) (text.drop length)).comments } := by
  have hfirst := pieces_of_item hpos hle h
  simp only [read, hfirst, Pieces.cons, Pieces.covered, List.map_cons, List.flatten_cons, List.length_append, collect,
    List.length_take_of_le hle, Guarded.recorded]
  rw [← List.drop_drop]
  split <;> rfl

/-- What is no blank and no comment is left. -/
theorem read_of_stop (h : pieces Trivium.piece 0 text = .none) :
    read options source place text = ⟨[], place, text, false⟩ := by
  simp only [read, h, Pieces.none, Pieces.covered, List.map_nil, List.flatten_nil, List.length_nil, List.drop_zero,
    collect]
  split <;> rfl

/-- A comment that is never closed is left. -/
theorem read_of_fail (h : pieces Trivium.piece 0 text = ⟨[], some ()⟩) :
    read options source place text = ⟨[], place, text, true⟩ := by
  simp only [read, h, Pieces.covered, List.map_nil, List.flatten_nil, List.length_nil, List.drop_zero, collect]
  split <;> rfl

/-- What is wrong with a comment that is never closed. -/
def fault (trivia : Trivia) : Fault :=
  .after trivia.rest trivia.rest.length .unfinishedLongComment [(toString trivia.stop.line).toList, "<eof>".toList]

end Trivia

namespace Guarded

variable {α : Type} {source text rest : Text} {place stop : Place} {options : ParseOptions} {fuel length : Nat}

/-- Whether guarded reading passes over what stands before a token as a reader of characters does. -/
def Passes (source : Text) (m : Guarded Unit) (place : Place) (found : Trivia) : Prop :=
  if found.unfinished then ∃ stop, stop.Marks source [] ∧
    m.Keeps place (.error (found.fault.told source found.stop stop)) stop found.comments
  else m.Keeps place (.ok ()) found.stop found.comments

/-- What keeps comments goes on to pass the rest with them. -/
theorem Keeps.passes {m : Guarded α} {f : α → Guarded Unit} {v : α} {kept : List Comment} {found : Trivia}
    (h : m.Keeps place (.ok v) stop kept) (h' : Passes source (f v) stop found) :
    Passes source (m >>= f) place { found with comments := kept ++ found.comments } := by
  rw [Passes] at h' ⊢
  dsimp only
  split
  · next hunfinished =>
    rw [if_pos hunfinished] at h'
    obtain ⟨last, hlast, hkeeps⟩ := h'
    exact ⟨last, hlast, h.bind hkeeps⟩
  · next hunfinished =>
    rw [if_neg hunfinished] at h'
    exact h.bind h'

/-- What gives a result goes on to pass the rest. -/
theorem Gives.passes {m : Guarded α} {f : α → Guarded Unit} {v : α} {found : Trivia} (h : m.Gives place (.ok v) stop)
    (h' : Passes source (f v) stop found) : Passes source (m >>= f) place found :=
  h.keeps.passes h'

/-- Reading of a piece comes to the place behind it. -/
theorem marks_piece {value : Trivium} (hpos : 0 < length) (hpiece : Trivium.piece text = .item value length)
    (hplace : place.Marks source text) : (place.after (text.take length)).Marks source (text.drop length) := by
  cases text with
  | nil => cases hpiece
  | cons c rest =>
    have hparts := Trivium.piece_parts hpiece
    rw [Nat.sub_add_cancel hpos] at hparts
    exact hplace.after_take hparts

/-- A blank is passed over. -/
theorem passes_blank {m : Guarded α} {f : α → Guarded Unit} {v : α} (hpos : 0 < length) (hle : length ≤ text.length)
    (hpiece : Trivium.piece text = .item .blank length) (hm : Leads source m text v (text.drop length))
    (hplace : place.Marks source text)
    (h : ∀ stop : Place, stop.Marks source (text.drop length) →
      Passes source (f v) stop (Trivia.read options source stop (text.drop length))) :
    Passes source (m >>= f) place (Trivia.read options source place text) := by
  obtain ⟨stop, hgives, hstop⟩ := hm place hplace
  have hread := h stop hstop
  obtain rfl := hstop.unique (marks_piece hpos hpiece hplace)
  rw [Trivia.read_of_blank hpos hle hpiece]
  exact hgives.passes hread

/-- A comment is passed over and kept, unless it is never closed. -/
theorem passes_comment (hsmall : source.size + 1 < 2 ^ 32) {body : Text} {f : Unit → Guarded Unit}
    (hplace : place.Marks source ('-' :: '-' :: body))
    (h : ∀ length (stop : Place), 0 < length → stop.Marks source (('-' :: '-' :: body).drop length) →
      Passes source (f ()) stop (Trivia.read options source stop (('-' :: '-' :: body).drop length))) :
    Passes source (comment source options >>= f) place (Trivia.read options source place ('-' :: '-' :: body)) := by
  have hpiece := Trivium.piece_comment body
  cases hread : Trivium.comment? body with
  | stop =>
    rw [Trivium.comment?] at hread
    split at hread <;> cases hread
  | fail error =>
    rw [Trivia.read_of_fail (pieces_of_fail (hpiece.trans hread)), Passes, if_pos rfl]
    obtain ⟨stop, hgives, hstop⟩ := gives_comment hsmall hplace hread options
    exact ⟨stop, hstop, hgives.keeps.ends⟩
  | item value length =>
    obtain ⟨content, rfl, hpos, hle⟩ := Trivium.comment?_eq_item hread
    have hstop := marks_piece hpos (hpiece.trans hread) hplace
    have hlength : length ≤ ('-' :: '-' :: body).length := hle
    rw [Trivia.read_of_comment hpos hlength (hpiece.trans hread)]
    exact (keeps_comment hsmall hplace hread hstop options).passes (h length _ hpos hstop)

/-- What stands before a token is passed over piece by piece. -/
theorem passes_trivia (hsmall : source.size + 1 < 2 ^ 32) (hfuel : text.length < fuel) (hplace : place.Marks source text) :
    Passes source (trivia source options fuel) place (Trivia.read options source place text) := by
  induction fuel generalizing text place with
  | zero => cases hfuel
  | succ fuel ih =>
    have hrest {length : Nat} (hpos : 0 < length) (hne : text ≠ []) : (text.drop length).length < fuel := by
      have hlength := List.length_pos_iff.mpr hne
      rw [List.length_drop]
      omega
    obtain ⟨stop, hpeek, hstop⟩ := leads_peek place hplace
    obtain rfl := hstop.unique hplace
    refine hpeek.passes ?_
    cases text with
    | nil =>
      rw [Trivia.read_of_stop (by rfl)]
      exact (gives_pure () _).keeps
    | cons c rest =>
      rw [List.head?_cons, Option.map_some]
      dsimp only
      rw [Text.ascii_isBlank.uniform.front, Text.ascii_isLineEnd.uniform.front, Text.front_beq (by decide)]
      by_cases hblank : Text.isBlank c = true
      · rw [if_pos hblank]
        have hpiece : Trivium.piece (c :: rest) = .item .blank 1 := by rw [Trivium.piece, if_pos hblank]
        exact passes_blank Nat.one_pos (Nat.succ_pos _) hpiece
          (leads_advance_one (Trivium.isLineEnd_of_isBlank c hblank) (Text.ascii_isBlank.lt hblank)) hplace
          fun stop hstop => ih (hrest Nat.one_pos (List.cons_ne_nil c rest)) hstop
      rw [if_neg hblank]
      by_cases hend : Text.isLineEnd c = true
      · rw [if_pos hend]
        have hpos := Text.lineBreak_pos hend rest
        have hpiece : Trivium.piece (c :: rest) = .item .blank (Text.lineBreak (c :: rest)) := by
          rw [Trivium.piece, if_neg hblank, if_pos hend]
        exact passes_blank hpos (Text.lineBreak_le_length _) hpiece (leads_breakLine hsmall) hplace
          fun stop hstop => ih (hrest hpos (List.cons_ne_nil c rest)) hstop
      rw [if_neg hend]
      obtain ⟨stop, hsecond, hstop⟩ := @leads_peek_any source (c :: rest) 1 _ hplace
      obtain rfl := hstop.unique hplace
      refine hsecond.passes ?_
      have hother (h : Trivium.piece (c :: rest) = .stop) :
          Passes source (pure ()) stop (Trivia.read options source stop (c :: rest)) := by
        rw [Trivia.read_of_stop (pieces_of_stop h)]
        exact (gives_pure () _).keeps
      rw [Trivium.piece, if_neg hblank, if_neg hend] at hother
      by_cases hdash : c = '-'
      · subst hdash
        rw [Text.second_latin (by decide), Text.map_front_beq (by decide), beq_self_eq_true, Bool.true_and]
        rw [beq_self_eq_true, Bool.true_and] at hother
        by_cases hdashes : (rest.head? == some '-') = true
        · obtain ⟨body, rfl⟩ : ∃ body, rest = '-' :: body := by
            cases rest with
            | nil => cases hdashes
            | cons d body => exact ⟨body, by simpa using hdashes⟩
          rw [if_pos hdashes]
          exact passes_comment hsmall hplace fun length stop hpos hstop =>
            ih (hrest hpos (List.cons_ne_nil _ _)) hstop
        · rw [if_neg hdashes] at hother ⊢
          exact hother rfl
      · rw [beq_eq_false_iff_ne.mpr hdash, Bool.false_and, if_neg Bool.false_ne_true] at hother ⊢
        exact hother rfl

end Guarded

end LuaSyntax
