import LuaSyntax.Proofs.Reading.Places
import LuaSyntax.Proofs.Reading.Separators
import LuaSyntax.Proofs.Text.Bytes

/-!
# Guarded reading

The readers of this library go through characters, so they cannot cut a character in two. A reader of bytes could: it
keeps an offset into the bytes of its source, looks at the byte there, and cuts pieces out of the source between two
offsets. Offsets, lines and what it counts are machine numbers besides.

`Guarded` is reading of that kind in which whatever might go wrong unseen is looked out for. An offset beyond the end
of the source, a piece that is none or does not begin and end between two characters, a number that does not fit: each
of them is `undefined`, which has no result at all. The modules here write out how a source is read by its bytes,
step by step, and prove of each step that it has a result, and which: the one that a reader of characters has.

Where a reader stands is known from what is left to read, as `Place.Marks` says. So `Leads` and `Yields` speak of texts
only, and of places where an error needs them.
-/

namespace LuaSyntax

/-- Where a reader stands, and the comments it has met. -/
structure Cursor where
  place : Place
  comments : List Comment

/-- Reading of bytes, which has no result where something goes wrong unseen. -/
def Guarded (α : Type) : Type := Cursor → Option (Except ParseError α × Cursor)

namespace Guarded

variable {α β : Type}

/-! ## Steps -/

/-- Reads nothing. -/
def give (v : α) : Guarded α := fun cursor => some (.ok v, cursor)

/-- Goes on reading unless there was an error. -/
def andThen (m : Guarded α) (f : α → Guarded β) : Guarded β := fun cursor =>
  (m cursor).bind fun (result, cursor) =>
    match result with
    | .ok v => f v cursor
    | .error error => some (.error error, cursor)

instance : Monad Guarded where
  pure := give
  bind := andThen

/-- Something has gone wrong unseen. -/
def undefined : Guarded α := fun _ => none

/-- What has to be there. -/
def given : Option α → Guarded α
  | some v => give v
  | none => undefined

/-- What has to hold. -/
def check (p : Prop) [Decidable p] : Guarded Unit := if p then give () else undefined

/-- A number of 32 bits. -/
def word (number : Nat) : Guarded Nat := if number < 2 ^ 32 then give number else undefined

/-- A difference that is not negative. -/
def minus (a b : Nat) : Guarded Nat := if b ≤ a then give (a - b) else undefined

/-- Stops with an error. -/
def blame (error : ParseError) : Guarded α := fun cursor => some (.error error, cursor)

/-- Where reading has come to. -/
def here : Guarded Place := fun cursor => some (.ok cursor.place, cursor)

/-- Goes to a place. -/
def moveTo (place : Place) : Guarded Unit := fun cursor => some (.ok (), { cursor with place })

/-- Keeps a comment. -/
def keep (comment : Comment) : Guarded Unit := fun cursor =>
  some (.ok (), { cursor with comments := cursor.comments ++ [comment] })

section

variable (source : Text)

/-- The byte so many bytes ahead, if the source goes as far. -/
def peek (ahead : Nat) : Guarded (Option Char) := fun cursor =>
  some (.ok (source.latin[cursor.place.offset + ahead]?), cursor)

/-- Passes over some bytes of a line. -/
def advance (count : Nat) : Guarded Unit := do
  let place ← here
  check (place.offset + count ≤ source.bytes.length)
  moveTo { place with offset := place.offset + count }

/-- Passes over the bytes of a line that have a property. What is left of the source is searched for one that
has not, and has to begin between two characters. -/
def skip (p : Char → Bool) : Guarded Unit := do
  let place ← here
  check (source.cuts place.offset = true)
  advance source ((source.latin.drop place.offset).takeWhile p).length

/-- Passes over a line break, if there is one: two different line ends, or one line end. -/
def breakLine : Guarded Bool := do
  let first ← peek source 0
  let second ← peek source 1
  if first.any Text.isLineEnd then do
    advance source (if second.any Text.isLineEnd && second != first then 2 else 1)
    let place ← here
    let line ← word (place.line + 1)
    moveTo ⟨place.offset, line, place.offset⟩
    pure true
  else pure false

/-- The text between an offset and where reading has come to, with what some bytes ahead touch. -/
def shown (start ahead : Nat) : Guarded Text := do
  let place ← here
  given (source.snippet? start (place.offset + ahead))

/-- An error at an offset, told with the line that reading has come to. -/
def errorAt (offset : Nat) (message : Message) (arguments : List Text) : Guarded ParseError := do
  let place ← here
  let column ← given (source.column? place.lineStart offset)
  let offset ← word offset
  pure
    { message
      arguments := arguments.map String.ofList
      offset
      position := ⟨place.line, column⟩
      endOfInput := source.bytes.length ≤ place.offset }

/-- More often than a source has bytes, no loop turns. -/
def turns : Nat := source.bytes.length + 1

/-- The character that begins at an offset, if one does. -/
def charFrom? (offset : Nat) : Option Char := (source.slice? offset source.bytes.length).bind List.head?

/-- Whether the character that is next belongs to a class, which holds no other than ASCII unless it is extended. -/
def atCharacter (extended : Bool) (p : Char → Bool) : Guarded Bool := do
  match ← peek source 0 with
  | none => pure false
  | some c =>
    if c.toNat < 0x80 then pure (p c)
    else if extended then do
      let place ← here
      pure ((charFrom? source place.offset).any p)
    else pure false

/-- Passes over characters of a line, however long, for as long as a look ahead says. -/
def passOver (goesOn : Guarded Bool) : Nat → Guarded Unit
  | 0 => undefined
  | turns + 1 => do
    if ← goesOn then do
      let place ← here
      advance source ((charFrom? source place.offset).elim 1 Char.utf8Size)
      passOver goesOn turns
    else pure ()

/-- Stops with an error where reading has come to. -/
def fail (message : Message) (arguments : List Text) : Guarded α := do
  let place ← here
  let error ← errorAt source place.offset message arguments
  blame error

end

/-! ## Results -/

/-- Whether reading from one place has a result and comes to another place, meeting no comment. -/
def Gives (m : Guarded α) (place : Place) (result : Except ParseError α) (stop : Place) : Prop :=
  ∀ comments, m ⟨place, comments⟩ = some (result, ⟨stop, comments⟩)

/-- Whether reading from before one text gives something and comes to before another. -/
def Leads (source : Text) (m : Guarded α) (rest : Text) (v : α) (behind : Text) : Prop :=
  ∀ place : Place, place.Marks source rest → ∃ stop, m.Gives place (.ok v) stop ∧ stop.Marks source behind

variable {m : Guarded α} {f : α → Guarded β} {place stop last : Place} {v : α} {w : β} {error : ParseError}
  {result : Except ParseError β} {source text rest behind a b : Text} {c : Char}

/-- What gives a result goes on with it. -/
theorem Gives.bind (h : m.Gives place (.ok v) stop) (h' : (f v).Gives stop result last) :
    (m >>= f).Gives place result last := fun comments => by
  refine Eq.trans ?_ (h' comments)
  exact (congrArg (Option.bind · _) (h comments)).trans rfl

/-- What gives an error ends with it. -/
theorem Gives.ends (h : m.Gives place (.error error) stop) : (m >>= f).Gives place (.error error) stop :=
  fun comments => (congrArg (Option.bind · _) (h comments)).trans rfl

/-- A value is given where one stands. -/
theorem gives_pure (v : α) (place : Place) : (pure v : Guarded α).Gives place (.ok v) place := fun _ => rfl

/-- The place where one stands is given. -/
theorem gives_here (place : Place) : here.Gives place (.ok place) place := fun _ => rfl

/-- To move to a place gives that place. -/
theorem gives_moveTo (place stop : Place) : (moveTo stop).Gives place (.ok ()) stop := fun _ => rfl

/-- To blame gives the error. -/
theorem gives_blame (error : ParseError) (place : Place) : (blame error : Guarded α).Gives place (.error error) place :=
  fun _ => rfl

/-- What is defined is given. -/
theorem gives_given {o : Option α} (h : o = some v) (place : Place) : (given o).Gives place (.ok v) place := by
  subst h
  exact fun _ => rfl

/-- What holds passes its check. -/
theorem gives_check {p : Prop} [Decidable p] (h : p) (place : Place) : (check p).Gives place (.ok ()) place := by
  rw [check, if_pos h]
  exact fun _ => rfl

/-- A number below `2 ^ 32` fits a word. -/
theorem gives_word {number : Nat} (h : number < 2 ^ 32) (place : Place) :
    (word number).Gives place (.ok number) place := by
  rw [word, if_pos h]
  exact fun _ => rfl

/-- To subtract the smaller number does not underflow. -/
theorem gives_minus {a b : Nat} (h : b ≤ a) (place : Place) : (minus a b).Gives place (.ok (a - b)) place := by
  rw [minus, if_pos h]
  exact fun _ => rfl

/-- What moves nowhere leads from a text to the same text. -/
theorem Gives.leads (h : ∀ place : Place, place.Marks source rest → m.Gives place (.ok v) place) :
    Leads source m rest v rest := fun place hplace => ⟨place, h place hplace, hplace⟩

/-- A value leads nowhere. -/
theorem leads_pure (v : α) : Leads source (pure v) rest v rest := Gives.leads fun place _ => gives_pure v place

/-- What is defined leads nowhere. -/
theorem leads_given {o : Option α} (h : o = some v) : Leads source (given o) rest v rest :=
  Gives.leads fun place _ => gives_given h place

/-- What leads to a text goes on from there. -/
theorem Leads.bind (h : Leads source m rest v behind) (h' : Leads source (f v) behind w text) :
    Leads source (m >>= f) rest w text := fun place hplace => by
  obtain ⟨stop, hm, hstop⟩ := h place hplace
  obtain ⟨last, hf, hlast⟩ := h' stop hstop
  exact ⟨last, hm.bind hf, hlast⟩

end Guarded

/-! ## Places -/

namespace Place

variable {source rest text a : Text} {place other : Place}

/-- What is left to read tells the place. -/
theorem Marks.unique (h : place.Marks source rest) (h' : other.Marks source rest) : place = other := by
  obtain ⟨before, rfl, rfl, -⟩ := h
  obtain ⟨before', heq, rfl, -⟩ := h'
  rw [List.append_cancel_right heq]

/-- What is left to read ends the source. -/
theorem Marks.suffix (h : place.Marks source rest) : rest <:+ source := by
  obtain ⟨before, rfl, -, -⟩ := h
  exact List.suffix_append before rest

/-- The offset and what is left to read make up the source. -/
theorem Marks.offset_add (h : place.Marks source rest) : place.offset + rest.size = source.size := by
  obtain ⟨before, rfl, rfl, -⟩ := h
  rw [Text.size_append]
  exact congrArg (· + _) (Scan.of_line before).1

/-- A source up to a place: what is before the line, and the line. -/
theorem Marks.parts (h : place.Marks source rest) : ∃ before line, source = before ++ (line ++ rest) ∧
    place.lineStart = before.size ∧ place.offset = before.size + line.size := by
  obtain ⟨text, rfl, rfl, -⟩ := h
  obtain ⟨hoffset, before, line, rfl, hstart, -⟩ := Scan.of_line text
  exact ⟨before, line, List.append_assoc _ _ _, hstart, hoffset.trans (Text.size_append _ _)⟩

/-- A reader stands between two characters. -/
theorem Marks.cuts (h : place.Marks source rest) : source.cuts place.offset = true := by
  obtain ⟨before, rfl, rfl, -⟩ := h
  exact Text.cuts_iff.mpr ⟨before, rest, rfl, (Scan.of_line before).1.symm⟩

/-- A byte ahead in the source is one of what is left to read. -/
theorem Marks.latin_ahead (h : place.Marks source rest) (count : Nat) :
    source.latin[place.offset + count]? = rest.latin[count]? := by
  obtain ⟨before, rfl, rfl, -⟩ := h
  rw [show (Scan.of before).place.offset = before.size from (Scan.of_line before).1, Text.latin_behind]

/-- The bytes behind the offset are those of what is left to read. -/
theorem Marks.latin_drop (h : place.Marks source rest) : source.latin.drop place.offset = rest.latin := by
  obtain ⟨before, rfl, rfl, -⟩ := h
  rw [show (Scan.of before).place.offset = before.size from (Scan.of_line before).1, Text.latin_append,
    List.drop_left' (Text.length_latin before)]

/-- There are no more lines than bytes before a place, and one more. -/
theorem Marks.line_le (h : place.Marks source rest) : place.line ≤ place.offset + 1 := by
  obtain ⟨before, -, rfl, -⟩ := h
  induction before using List.reverseRecOn with
  | nil => exact Nat.le_refl _
  | append_singleton before c ih =>
    have hsize := c.utf8Size_pos
    have hstep : ((Scan.of before).step c).line ≤ (Scan.of before).line + 1 ∧
        ((Scan.of before).step c).offset = (Scan.of before).offset + c.utf8Size := by
      simp only [Scan.step]
      split
      · split <;> exact ⟨by simp, rfl⟩
      · exact ⟨by simp, rfl⟩
    rw [Scan.of_append]
    simp only [Scan.place, Scan.steps_cons, Scan.steps_nil] at ih ⊢
    omega

/-- Behind some characters of the line. -/
theorem Marks.over (h : place.Marks source (a ++ rest)) (ha : a.OneLine) :
    Place.Marks source { place with offset := place.offset + a.size } rest := by
  have hparted : Text.Parted a rest :=
    Text.parted_of_getLast? rest fun c hc => ha c (List.mem_of_getLast? hc)
  have hafter := h.after hparted
  rwa [Place.after_of_oneLine place ha] at hafter

end Place

/-! ## Lexemes -/

/-- The error that a fault is, in a lexeme that begins at one place, where reading has come to another. -/
def Fault.told (fault : Fault) (source : Text) (start stop : Place) : ParseError :=
  let offset := if fault.blamesStart then start.offset else stop.offset
  { message := fault.message
    arguments := fault.arguments
    offset
    position := .onLine source stop.line stop.lineStart offset
    endOfInput := fault.endOfInput }

namespace Guarded

variable {α β : Type}

/-- What is told of a lexeme that begins at one place, where reading has come to another. -/
def told (source : Text) (start stop : Place) : Except Fault (α × Nat) → Except ParseError α
  | .ok (v, _) => .ok v
  | .error fault => .error (fault.told source start stop)

/-- Whether reading from before a text has a result of the lexeme that begins with another text, and stands then where
the lexeme ends or its fault is. -/
def Yields (source text : Text) (m : Guarded α) (rest : Text) (result : Except Fault (α × Nat)) : Prop :=
  ∀ start place : Place, start.Marks source text → place.Marks source rest →
    ∃ stop, m.Gives place (told source start stop result) stop ∧ stop.Marks source (text.drop (reach result))

variable {m : Guarded α} {f : α → Guarded β} {v : α} {result : Except Fault (β × Nat)} {fault : Fault}
  {source text rest behind a : Text} {start place : Place} {c : Char} {p : Char → Bool} {count ahead : Nat}

/-- What leads over characters yields how many they are. -/
theorem Leads.yields (h : Leads source m rest v (text.drop count)) : Yields source text m rest (.ok (v, count)) :=
  fun _ place _ hplace => h place hplace

/-- A value yields how far the reader has come. -/
theorem yields_pure (h : text.drop count = rest) (v : α) : Yields source text (pure v) rest (.ok (v, count)) := by
  subst h
  exact (leads_pure v).yields

/-- What leads to a text yields what goes on from there. -/
theorem Leads.bind_yields (h : Leads source m rest v behind) (h' : Yields source text (f v) behind result) :
    Yields source text (m >>= f) rest result := fun start place hstart hplace => by
  obtain ⟨stop, hm, hstop⟩ := h place hplace
  obtain ⟨last, hf, hlast⟩ := h' start stop hstart hstop
  exact ⟨last, hm.bind hf, hlast⟩

/-- What yields a value goes on behind it. -/
theorem Yields.bind (h : Yields source text m rest (.ok (v, count)))
    (h' : Yields source text (f v) (text.drop count) result) : Yields source text (m >>= f) rest result :=
  fun start place hstart hplace => by
    obtain ⟨stop, hm, hstop⟩ := h start place hstart hplace
    obtain ⟨last, hf, hlast⟩ := h' start stop hstart hstop
    exact ⟨last, hm.bind hf, hlast⟩

/-- What yields a fault ends with it. -/
theorem Yields.ends (h : Yields source text m rest (.error fault)) :
    Yields source text (m >>= f) rest (.error fault) := fun start place hstart hplace => by
  obtain ⟨stop, hm, hstop⟩ := h start place hstart hplace
  exact ⟨stop, hm.ends, hstop⟩

/-- Where reading has come to may be asked at any time. -/
theorem yields_here {f : Place → Guarded β}
    (h : ∀ start place : Place, start.Marks source text → place.Marks source rest →
      ∃ stop, (f place).Gives place (told source start stop result) stop ∧
        stop.Marks source (text.drop (reach result))) :
    Yields source text (here >>= f) rest result := fun start place hstart hplace => by
  obtain ⟨stop, hf, hstop⟩ := h start place hstart hplace
  exact ⟨stop, (gives_here place).bind hf, hstop⟩

/-! ## Looking and going on -/

/-- To look a number of bytes ahead leads nowhere. -/
theorem leads_peek_any (count : Nat) : Leads source (peek source count) rest rest.latin[count]? rest :=
  Gives.leads fun place hplace comments => by rw [peek, hplace.latin_ahead]

/-- To look at the next byte gives the first byte of the next character. -/
theorem leads_peek : Leads source (peek source 0) rest (rest.head?.map Text.front) rest := by
  refine Gives.leads fun place hplace comments => ?_
  have hbyte : source.latin[place.offset + 0]? = rest.head?.map Text.front := by
    rw [hplace.latin_ahead]
    cases rest with
    | nil => rfl
    | cons c rest => rw [← List.head?_eq_getElem?, Text.head?_latin, List.head?_cons, Option.map_some]
  rw [peek, hbyte]

/-- To look at the next byte in front of a character gives the first byte of it. -/
theorem leads_peek_cons : Leads source (peek source 0) (c :: rest) (some (Text.front c)) (c :: rest) := leads_peek

/-- Behind characters of ASCII, so many bytes ahead is so many characters ahead. -/
theorem leads_peek_ahead (ha : ∀ c ∈ a, c.toNat < 0x80) (hcount : a.length = count) :
    Leads source (peek source count) (a ++ rest) (rest.head?.map Text.front) (a ++ rest) := by
  refine Gives.leads fun place hplace comments => ?_
  have hbyte : source.latin[place.offset + count]? = rest.head?.map Text.front := by
    rw [hplace.latin_ahead, Text.latin_append, Text.latin_of_forall_lt ha, List.getElem?_append_right hcount.le,
      hcount, Nat.sub_self, ← List.head?_eq_getElem?]
    cases rest with
    | nil => rfl
    | cons c rest => rw [Text.head?_latin, List.head?_cons, Option.map_some]
  rw [peek, hbyte]

/-- Behind a character of one byte the second byte is the first of the next character. -/
theorem leads_peek_second (hc : c.toNat < 0x80) :
    Leads source (peek source 1) (c :: rest) (rest.head?.map Text.front) (c :: rest) :=
  leads_peek_ahead (a := [c]) (List.forall_mem_singleton.mpr hc) rfl

/-- To advance over characters on a line moves the offset. -/
theorem gives_advance (hplace : place.Marks source (a ++ rest)) (hcount : a.size = count) :
    (advance source count).Gives place (.ok ()) { place with offset := place.offset + count } := by
  have hoffset := hplace.offset_add
  rw [Text.size_append] at hoffset
  refine (gives_here place).bind ((gives_check ?_ place).bind (gives_moveTo place _))
  rw [Text.length_bytes]
  omega

/-- To advance over characters on a line leads behind them. -/
theorem leads_advance (ha : a.OneLine) (hcount : a.size = count) :
    Leads source (advance source count) (a ++ rest) () rest := by
  subst hcount
  exact fun place hplace => ⟨_, gives_advance hplace rfl, hplace.over ha⟩

/-- To advance over a character that ends no line leads behind it. -/
theorem leads_advance_cons (hc : Text.isLineEnd c = false) (hcount : c.utf8Size = count) :
    Leads source (advance source count) (c :: rest) () rest :=
  leads_advance (a := [c]) (List.forall_mem_singleton.mpr hc) hcount

/-- To advance over one byte leads behind a character of one byte. -/
theorem leads_advance_one (hc : Text.isLineEnd c = false) (hlt : c.toNat < 0x80) :
    Leads source (advance source 1) (c :: rest) () rest :=
  leads_advance_cons hc (Text.utf8Size_of_lt hlt)

/-- Characters of ASCII are passed over as so many bytes. -/
theorem leads_advance_ascii (ha : ∀ c ∈ a, c.toNat < 0x80 ∧ Text.isLineEnd c = false) (hcount : a.length = count) :
    Leads source (advance source count) (a ++ rest) () rest :=
  leads_advance (fun c hc => (ha c hc).2) ((Text.size_of_forall_lt fun c hc => (ha c hc).1).trans hcount)

/-- One of two characters of ASCII that end no line is such a character. -/
theorem ascii_of_either {first second : Char} (hfirst : first.toNat < 0x80 ∧ Text.isLineEnd first = false)
    (hsecond : second.toNat < 0x80 ∧ Text.isLineEnd second = false) (h : (c == first || c == second) = true) :
    c.toNat < 0x80 ∧ Text.isLineEnd c = false := by
  rw [Bool.or_eq_true, beq_iff_eq, beq_iff_eq] at h
  rcases h with rfl | rfl
  · exact hfirst
  · exact hsecond

/-- To skip bytes by their kind skips characters, where the first byte tells the kind. -/
theorem leads_skip (hp : Text.Uniform p) (hend : ∀ c, p c = true → Text.isLineEnd c = false) :
    Leads source (skip source p) rest () (rest.dropWhile p) := by
  intro place hplace
  have hrun : ((source.latin.drop place.offset).takeWhile p).length = Text.size (rest.takeWhile p) := by
    rw [hplace.latin_drop, Text.takeWhile_latin hp, Text.length_latin]
  have hadvance : Leads source (advance source (Text.size (rest.takeWhile p))) rest () (rest.dropWhile p) := by
    have h := @leads_advance source (rest.dropWhile p) (rest.takeWhile p) _ (Text.oneLine_takeWhile hend rest) rfl
    rwa [List.takeWhile_append_dropWhile] at h
  obtain ⟨stop, hgives, hstop⟩ := hadvance place hplace
  refine ⟨stop, (gives_here place).bind ((gives_check hplace.cuts place).bind ?_), hstop⟩
  rwa [hrun]

/-- To look ahead does not move. -/
theorem gives_peek (source : Text) (count : Nat) (place : Place) :
    (peek source count).Gives place (.ok (source.latin[place.offset + count]?)) place := fun _ => rfl

/-- A text without a line end at its front has no line break there. -/
theorem lineBreak_of_not (h : rest.head?.any Text.isLineEnd = false) : Text.lineBreak rest = 0 := by
  cases rest with
  | nil => rfl
  | cons c rest =>
    have hc : ¬ Text.isLineEnd c = true := by simpa using h
    cases rest <;> rw [Text.lineBreak, if_neg hc]

/-- How long a line break is can be told from the byte behind its first. -/
theorem lineBreak_of_front (hc : Text.isLineEnd c = true) (rest : Text) : Text.lineBreak (c :: rest) =
    if (rest.head?.map Text.front).any Text.isLineEnd && rest.head?.map Text.front != some c then 2 else 1 := by
  cases rest with
  | nil => exact if_pos hc
  | cons d rest =>
    rw [Text.lineBreak, if_pos hc, Text.ascii_isLineEnd.uniform.any_front, Text.map_front_bne (Text.ascii_isLineEnd.lt hc)]
    rfl

/-- A line break has a byte for each character. -/
theorem size_lineBreak (hc : Text.isLineEnd c = true) (rest : Text) :
    Text.size ((c :: rest).take (Text.lineBreak (c :: rest))) = Text.lineBreak (c :: rest) := by
  have hsize := Text.utf8Size_of_isLineEnd hc
  rcases Text.lineBreak_of_lineEnd hc rest with hone | ⟨d, more, rfl, hd, htwo⟩
  · rw [hone, List.take_succ_cons, List.take_zero, Text.size_cons, Text.size_nil, hsize]
  · rw [htwo, List.take_succ_cons, List.take_succ_cons, List.take_zero, Text.size_cons, Text.size_cons, Text.size_nil,
      hsize, Text.utf8Size_of_isLineEnd hd]

/-- Behind a line break a line begins. -/
theorem after_lineBreak (hc : Text.isLineEnd c = true) (rest : Text) (place : Place) :
    place.after ((c :: rest).take (Text.lineBreak (c :: rest))) = place.afterBreak (Text.lineBreak (c :: rest)) := by
  cases rest with
  | nil => rw [Text.lineBreak, if_pos hc, List.take_succ_cons, List.take_nil, Place.after, if_pos hc]
  | cons d rest =>
    rw [Text.lineBreak, if_pos hc]
    split
    · next hpair =>
      rw [List.take_succ_cons, List.take_succ_cons, List.take_zero, Place.after, if_pos hc, if_pos hpair, Place.after]
    · rw [List.take_succ_cons, List.take_zero, Place.after, if_pos hc]

/-- A line break is passed over as a whole. -/
theorem leads_breakLine (hsmall : source.size + 1 < 2 ^ 32) :
    Leads source (breakLine source) rest (rest.head?.any Text.isLineEnd) (rest.drop (Text.lineBreak rest)) := by
  cases hend : rest.head?.any Text.isLineEnd with
  | false =>
    rw [lineBreak_of_not hend]
    refine leads_peek.bind fun place hplace => ⟨place, (gives_peek source 1 place).bind ?_, hplace⟩
    rw [Text.ascii_isLineEnd.uniform.any_front, hend]
    exact gives_pure _ place
  | true =>
    obtain ⟨c, rest, rfl⟩ : ∃ c rest', rest = c :: rest' := by
      cases rest with
      | nil => cases hend
      | cons c rest => exact ⟨c, rest, rfl⟩
    have hc : Text.isLineEnd c = true := hend
    have hlt := Text.ascii_isLineEnd.lt hc
    refine leads_peek.bind ((leads_peek_second hlt).bind fun place hplace => ?_)
    have hmarks := hplace.after_take (Text.parted_lineBreak (c :: rest))
    rw [after_lineBreak hc] at hmarks
    refine ⟨_, ?_, hmarks⟩
    have hoffset := hmarks.offset_add
    have hline := hplace.line_le
    have hover : place.Marks source ((c :: rest).take (Text.lineBreak (c :: rest)) ++
        (c :: rest).drop (Text.lineBreak (c :: rest))) := by
      rwa [List.take_append_drop]
    have hadvance := gives_advance hover (size_lineBreak hc rest)
    have hfirst : (c :: rest).head?.map Text.front = some c := congrArg some (Text.front_of_lt hlt)
    rw [Text.ascii_isLineEnd.uniform.any_front, hend, if_pos rfl, hfirst, ← lineBreak_of_front hc]
    refine hadvance.bind ((gives_here _).bind ((gives_word ?_ _).bind ((gives_moveTo _ _).bind (gives_pure true _))))
    have hpos := Text.lineBreak_pos hc rest
    simp only [Place.afterBreak] at hoffset ⊢
    omega

/-! ## Errors -/

/-- What is shown of the source is whole characters, from the start to beyond the place. -/
theorem gives_shown (hstart : start.Marks source (a ++ rest)) (hplace : place.Marks source rest) :
    (shown source start.offset ahead).Gives place (.ok (a ++ Text.covering ahead rest)) place := by
  obtain ⟨before, rfl, rfl, -⟩ := hstart
  have hoffset : (Scan.of before).place.offset = before.size := (Scan.of_line before).1
  have hstop : place.offset = before.size + a.size := by
    have h := hplace.offset_add
    rw [Text.size_append, Text.size_append] at h
    omega
  refine (gives_here place).bind (gives_given ?_ place)
  rw [hoffset, hstop]
  exact Text.snippet?_of_parts before a rest ahead

/-- What was read between two places can be shown. -/
theorem gives_shown_between (hstart : start.Marks source (a ++ rest)) (hplace : place.Marks source rest) :
    (shown source start.offset 0).Gives place (.ok a) place := by
  have hshown := @gives_shown source rest a start place 0 hstart hplace
  rwa [Text.covering_zero, List.append_nil] at hshown

/-- The column of a place can be counted. -/
theorem column?_of_marks (hsmall : source.size + 1 < 2 ^ 32) (h : place.Marks source rest) :
    source.column? place.lineStart place.offset = some (source.column place.lineStart place.offset) := by
  obtain ⟨before, line, rfl, hbefore, hoffset⟩ := h.parts
  rw [Text.size_append, Text.size_append] at hsmall
  rw [hbefore, hoffset]
  exact Text.column?_of_parts (by omega)

/-- An error is told with the column of its offset, if that is on the line. -/
theorem gives_errorAt (hsmall : source.size + 1 < 2 ^ 32) (hstart : start.Marks source text)
    (hplace : place.Marks source rest) (hline : place.lineStart = start.lineStart) (message : Message)
    (arguments : List Text) :
    (errorAt source start.offset message arguments).Gives place (.ok
      { message
        arguments := arguments.map String.ofList
        offset := start.offset
        position := .onLine source place.line place.lineStart start.offset
        endOfInput := rest.isEmpty }) place := by
  have hoffset := hstart.offset_add
  have hend : decide (source.bytes.length ≤ place.offset) = rest.isEmpty := by
    have h := hplace.offset_add
    rw [Text.length_bytes, ← h]
    cases rest with
    | nil => simp
    | cons c rest =>
      have hpos := c.utf8Size_pos
      rw [List.isEmpty_cons, decide_eq_false_iff_not, Text.size_cons]
      omega
  have hcolumn := column?_of_marks hsmall hstart
  rw [← hline] at hcolumn
  refine (gives_here place).bind ((gives_given hcolumn place).bind ((gives_word (by omega) place).bind ?_))
  rw [hend]
  exact gives_pure _ place

/-- A failure yields the fault at the place where the reader stands. -/
theorem yields_fail (hsmall : source.size + 1 < 2 ^ 32) (message : Message) (arguments : List Text) :
    Yields source text (fail source message arguments : Guarded α) (text.drop count)
      (.error (.after text count message arguments)) := by
  intro start place _ hplace
  exact ⟨place, (gives_here place).bind ((gives_errorAt hsmall hplace hplace rfl message arguments).bind
    (gives_blame _ place)), hplace⟩

end Guarded

/-! ## Offsets and parts -/

namespace Guarded

variable {α β : Type} {source text rest behind a : Text} {c : Char} {start read count ahead : Nat}

/-- A number below `2 ^ 32` fits a word and leads nowhere. -/
theorem leads_word {number : Nat} (h : number < 2 ^ 32) : Leads source (word number) rest number rest :=
  Gives.leads fun place _ => gives_word h place

/-- To subtract the smaller number does not underflow and leads nowhere. -/
theorem leads_minus {a b : Nat} (h : b ≤ a) : Leads source (minus a b) rest (a - b) rest :=
  Gives.leads fun place _ => gives_minus h place

/-- The offset of a text is known from its size. -/
theorem offset_of_marks (hstart : start + text.size = source.size) {place : Place} (hplace : place.Marks source text) :
    place.offset = start := by
  have h := hplace.offset_add
  omega

/-- It can be told how far reading has come from an offset. -/
theorem leads_since {f : Nat → Guarded β} {w : β} (hstart : start + count + rest.size = source.size)
    (h : Leads source (f count) rest w text) :
    Leads source (here >>= fun place => minus place.offset start >>= f) rest w text := by
  intro place hplace
  obtain ⟨stop, hf, hstop⟩ := h place hplace
  have hoffset := hplace.offset_add
  have hminus := gives_minus (show start ≤ place.offset by omega) place
  rw [show place.offset - start = count by omega] at hminus
  exact ⟨stop, (gives_here place).bind (hminus.bind hf), hstop⟩

/-- A loop over what is left to read has turns enough. -/
theorem lt_turns (h : rest.size ≤ source.size) : rest.length < turns source := by
  have hlength := Text.length_le_size rest
  rw [turns, Text.length_bytes]
  omega

/-- Behind the next character one has come one character farther. -/
theorem drop_succ_of_cons (h : text.drop read = c :: rest) : text.drop (read + 1) = rest ∧ read < text.length := by
  refine ⟨by rw [List.drop_add_one_eq_tail_drop, h, List.tail_cons], ?_⟩
  by_contra hge
  rw [List.drop_eq_nil_of_le (by omega)] at h
  cases h

/-- The character at a place is the first of what is left to read. -/
theorem charFrom?_of_marks {place : Place} (h : place.Marks source rest) : charFrom? source place.offset = rest.head? := by
  have hoffset := h.offset_add
  obtain ⟨before, rfl, rfl, -⟩ := h
  have hplace : (Scan.of before).place.offset = before.size := (Scan.of_line before).1
  have hslice := Text.slice?_of_parts before rest []
  rw [List.append_nil] at hslice
  rw [charFrom?, hplace, Text.length_bytes, Text.size_append, hslice, Option.bind_some]

/-- To look at the next character by its kind gives the first of what is left to read. -/
theorem leads_atCharacter {extended : Bool} {p : Char → Bool} (hp : extended = false → Text.Ascii p) (source rest : Text) :
    Leads source (atCharacter source extended p) rest (rest.head?.any p) rest := by
  refine leads_peek.bind ?_
  cases rest with
  | nil => exact leads_pure false
  | cons c rest =>
    rw [List.head?_cons, Option.map_some]
    dsimp only
    rcases Nat.lt_or_ge c.toNat 0x80 with hlt | hge
    · rw [Text.front_of_lt hlt, if_pos hlt]
      exact leads_pure _
    rw [if_neg (Nat.not_lt.mpr (Text.front_ge hge)), Option.any_some]
    cases extended with
    | false =>
      rw [if_neg Bool.false_ne_true, hp rfl c hge]
      exact leads_pure false
    | true =>
      rw [if_pos rfl]
      refine fun place hplace => ⟨place, (gives_here place).bind ?_, hplace⟩
      rw [charFrom?_of_marks hplace, List.head?_cons, Option.any_some]
      exact gives_pure _ place

/-- What goes on is passed over character by character. -/
theorem leads_passOver {goesOn : Guarded Bool} {p : Char → Bool} {fuel : Nat}
    (hgoes : ∀ rest, Leads source goesOn rest (rest.head?.any p) rest)
    (hend : ∀ c, p c = true → Text.isLineEnd c = false) (hfuel : rest.length < fuel) :
    Leads source (passOver source goesOn fuel) rest () (rest.dropWhile p) := by
  induction fuel generalizing rest with
  | zero => cases hfuel
  | succ fuel ih =>
    refine (hgoes rest).bind ?_
    cases rest with
    | nil => exact leads_pure ()
    | cons c rest =>
      rw [List.head?_cons, Option.any_some]
      cases hc : p c with
      | false =>
        rw [if_neg Bool.false_ne_true, List.dropWhile_cons_of_neg (by rw [hc]; exact Bool.false_ne_true)]
        exact leads_pure ()
      | true =>
        rw [if_pos rfl, List.dropWhile_cons_of_pos hc]
        have hover : Leads source (advance source c.utf8Size >>= fun _ => passOver source goesOn fuel) (c :: rest) ()
            (rest.dropWhile p) :=
          (leads_advance_cons (hend c hc) rfl).bind (ih (Nat.lt_of_succ_lt_succ hfuel))
        intro place hplace
        obtain ⟨stop, hgives, hstop⟩ := hover place hplace
        refine ⟨stop, (gives_here place).bind ?_, hstop⟩
        rw [charFrom?_of_marks hplace]
        exact hgives

/-- Reading is before a text that lies in the source. -/
theorem leads_of_size {m : Guarded α} {v : α} (h : rest.size ≤ source.size → Leads source m rest v behind) :
    Leads source m rest v behind := fun place hplace =>
  h (by have hoffset := hplace.offset_add; omega) place hplace

/-- A piece between two places where the reader stands is defined, by its size. -/
theorem piece?_of_marks {place : Place} (h : place.Marks source (a ++ rest)) (hcount : a.size = count) :
    source.piece? place.offset (place.offset + count) = some a.bytes := by
  obtain ⟨before, rfl, rfl, -⟩ := h
  have hplace : (Scan.of before).place.offset = before.size := (Scan.of_line before).1
  rw [hplace, ← hcount, Text.piece?_of_parts]

/-- A piece between two places where the reader stands is defined. -/
theorem piece?_between {chunk place : Place} (hchunk : chunk.Marks source (a ++ rest)) (hplace : place.Marks source rest) :
    source.piece? chunk.offset place.offset = some a.bytes := by
  have hoffset := hchunk.offset_add
  have hoffset' := hplace.offset_add
  rw [Text.size_append] at hoffset
  rw [show place.offset = chunk.offset + a.size by omega, piece?_of_marks hchunk rfl]

/-- Reading begins behind an offset. -/
theorem yields_begun {f : Place → Nat → Guarded β} {result : Except Fault (β × Nat)}
    (hstart : start + 1 + rest.size = source.size)
    (h : ∀ first : Place, first.Marks source rest → first.offset = start + 1 →
      Yields source text (f first start) rest result) :
    Yields source text (here >>= fun first => minus first.offset 1 >>= f first) rest result := by
  intro begin place hbegin hplace
  have hoffset := hplace.offset_add
  obtain ⟨stop, hf, hstop⟩ := h place hplace (by omega) begin place hbegin hplace
  have hminus := gives_minus (show 1 ≤ place.offset by omega) place
  rw [show place.offset - 1 = start by omega] at hminus
  exact ⟨stop, (gives_here place).bind (hminus.bind hf), hstop⟩

/-- A lexeme may keep where it begins. -/
theorem yields_from {f : Place → Guarded β} {result : Except Fault (β × Nat)}
    (h : ∀ first : Place, first.offset + text.size = source.size → Yields source text (f first) text result) :
    Yields source text (here >>= f) text result :=
  yields_here fun start place hstart hplace => h place hplace.offset_add start place hstart hplace

/-- A run of characters is passed over from one place to another. -/
theorem yields_run {p : Char → Bool} {f : Place → Place → Guarded β} {result : Except Fault (β × Nat)}
    (hp : Text.Uniform p) (hend : ∀ c, p c = true → Text.isLineEnd c = false)
    (h : ∀ chunk place : Place, chunk.Marks source rest → place.Marks source (rest.dropWhile p) →
      Yields source text (f chunk place) (rest.dropWhile p) result) :
    Yields source text (here >>= fun chunk => skip source p >>= fun _ => here >>= f chunk) rest result :=
  yields_here fun start chunk hstart hchunk =>
    (leads_skip hp hend).bind_yields
      (yields_here fun start place hstart hplace => h chunk place hchunk hplace start place hstart hplace)
      start chunk hstart hchunk

/-- A result of a part of a lexeme, seen from the beginning of the whole. -/
def shifted (count : Nat) : Except Fault (α × Nat) → Except Fault (α × Nat)
  | .ok (v, length) => .ok (v, length + count)
  | .error fault => .error (fault.shift count)

/-- A part of a lexeme is read as it would be alone, if it is not blamed on its beginning. -/
theorem Yields.shift {m : Guarded α} {result : Except Fault (α × Nat)} {place : Place}
    (h : Yields source (text.drop count) m rest result) (hplace : place.Marks source (text.drop count))
    (hblames : ∀ fault, result = .error fault → fault.blamesStart = false) :
    Yields source text m rest (shifted count result) := by
  intro start first hstart hfirst
  obtain ⟨stop, hgives, hstop⟩ := h place first hplace hfirst
  cases result with
  | ok found =>
    rw [reach, List.drop_drop, Nat.add_comm] at hstop
    exact ⟨stop, hgives, hstop⟩
  | error fault =>
    rw [reach, List.drop_drop, Nat.add_comm] at hstop
    refine ⟨stop, ?_, hstop⟩
    have htold : (fault.shift count).told source start stop = fault.told source place stop := by
      simp only [Fault.told, Fault.shift, hblames fault rfl]
      rfl
    show m.Gives first (.error ((fault.shift count).told source start stop)) stop
    rw [htold]
    exact hgives

/-- What is made of a result is not read. -/
theorem Yields.map {m : Guarded α} {result : Except Fault (α × Nat)} (h : Yields source text m rest result) (g : α → β) :
    Yields source text (m >>= fun v => pure (g v)) rest (result.map fun found => (g found.1, found.2)) := by
  cases result with
  | ok found => exact h.bind (yields_pure rfl (g found.1))
  | error fault => exact h.ends

end Guarded

end LuaSyntax
