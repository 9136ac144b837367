import Mathlib.Data.List.Induction
import LuaSyntax.Proofs.Text.Growth
import LuaSyntax.Text.Digit
import LuaSyntax.Text.NameCharacter

/-!
# Scanning a source from its beginning

What line and column a point of a source has can be found without reading any token: by going through
the characters before it, one at a time. `Scan` does that. The only thing it has to remember besides
the counts is whether the last character ended a line, since the other of the two line ends, if it
comes next, belongs to the same break.

Readers do not go that way. They walk over one piece of text after the other with `Place.after`, which
finds the breaks that have two characters inside the piece. Both agree as long as no break is divided
between two pieces, which is what `Text.Parted` says. So a text may be parted anywhere but between the
two characters of a break: behind a character that ends no line, behind a whole break, and behind all
the blanks there are.

## Main statements

- `Scan.place_steps`: walking over a text gives what going through its characters gives.
- `Scan.ofPlace_of`: the column that is counted on the line of a point is the one a scan has counted.
-/

namespace LuaSyntax

/-- What a scan of the characters before a point has found out. -/
structure Scan where
  /-- The bytes gone through. -/
  offset : Nat
  /-- The breaks gone through, and one more. -/
  line : Nat
  /-- The offset behind the last break. -/
  lineStart : Nat
  /-- The characters gone through since then, and one more. -/
  column : Nat
  /-- The character last gone through if it has ended a line, unless it was the second of a pair. -/
  ended : Option Char

namespace Scan

/-- Goes through one character. A line end behind the other line end completes its break. -/
def step (scan : Scan) (c : Char) : Scan :=
  let offset := scan.offset + c.utf8Size
  if Text.isLineEnd c then
    if scan.ended.any (· != c) then
      { scan with offset, lineStart := offset, column := 1, ended := none }
    else ⟨offset, scan.line + 1, offset, 1, some c⟩
  else { scan with offset, column := scan.column + 1, ended := none }

/-- Goes through the characters of a text. -/
def steps (scan : Scan) (text : Text) : Scan := text.foldl step scan

/-- The scan of a text from the beginning. -/
def of (text : Text) : Scan := steps ⟨0, 1, 0, 1, none⟩ text

/-- Where a scan has come to. -/
def place (scan : Scan) : Place := ⟨scan.offset, scan.line, scan.lineStart⟩

/-- The line and the column that a scan has come to. -/
def position (scan : Scan) : Position := ⟨scan.line, scan.column⟩

/-- To scan nothing changes nothing. -/
@[simp] theorem steps_nil (scan : Scan) : scan.steps [] = scan := rfl

@[simp] theorem steps_cons (scan : Scan) (c : Char) (text : Text) :
    scan.steps (c :: text) = (scan.step c).steps text := rfl

/-- A text is scanned one part behind the other. -/
@[simp] theorem steps_append (scan : Scan) (a b : Text) :
    scan.steps (a ++ b) = (scan.steps a).steps b := List.foldl_append

@[simp] theorem of_append (a b : Text) : of (a ++ b) = (of a).steps b := steps_append _ a b

/-- A character that ends no line moves the offset only. -/
theorem step_of_not_isLineEnd {scan : Scan} {c : Char} (h : Text.isLineEnd c = false) :
    scan.step c =
      { scan with offset := scan.offset + c.utf8Size, column := scan.column + 1, ended := none } := by
  simp [step, h]

/-! ## Breaks -/

/-- Whether the break that a scan may have met last does not go on with a text. -/
def Settled (scan : Scan) (text : Text) : Prop :=
  ∀ d ∈ scan.ended, ∀ c ∈ text.head?, Text.isLineEnd c = true → c = d

variable {scan : Scan} {text : Text}

/-- At the end of the text a scan is settled. -/
theorem settled_nil (scan : Scan) : scan.Settled [] := fun _ _ _ hmem => by cases hmem

/-- A scan that ended no line is settled whatever follows. -/
theorem settled_of_ended (h : scan.ended = none) (text : Text) : scan.Settled text := by
  intro d hmem
  rw [h] at hmem
  cases hmem

/-- A scan settled in front of a text is settled in front of its beginning. -/
theorem Settled.left {a b : Text} (h : scan.Settled (a ++ b)) : scan.Settled a := by
  intro d hd c hc
  exact h d hd c (by rw [List.head?_append, hc]; rfl)

/-- A line end that does not complete a break begins one. -/
theorem step_of_settled {c : Char} {rest : Text} (h : scan.Settled (c :: rest))
    (hend : Text.isLineEnd c = true) :
    scan.step c = ⟨scan.offset + 1, scan.line + 1, scan.offset + 1, 1, some c⟩ := by
  have hnew : scan.ended.any (· != c) = false := by
    cases hended : scan.ended with
    | none => rfl
    | some d =>
      obtain rfl := h d hended c rfl hend
      simp
  simp [step, hend, hnew, Text.utf8Size_of_isLineEnd hend]

/-- The other line end completes a break. -/
theorem step_of_pair {c d : Char} (hended : scan.ended = some c) (hend : Text.isLineEnd d = true)
    (hne : d ≠ c) :
    scan.step d = ⟨scan.offset + 1, scan.line, scan.offset + 1, 1, none⟩ := by
  have hpair : scan.ended.any (· != d) = true := by
    rw [hended]
    exact bne_iff_ne.mpr (Ne.symm hne)
  simp [step, hend, hpair, Text.utf8Size_of_isLineEnd hend]

/-- Walking over a text comes to the place to which going through its characters comes. -/
theorem place_steps (h : scan.Settled text) : (scan.steps text).place = scan.place.after text := by
  generalize hplace : scan.place = place
  fun_induction Place.after place text generalizing scan with
  | case1 => exact hplace
  | case2 place c hend =>
    subst hplace
    rw [steps_cons, step_of_settled h hend]
    rfl
  | case3 place c hend =>
    subst hplace
    rw [steps_cons, step_of_not_isLineEnd (Bool.not_eq_true _ ▸ hend)]
    rfl
  | case4 place c d rest hend hpair ih =>
    subst hplace
    obtain ⟨hsecond, hne⟩ := Bool.and_eq_true_iff.mp hpair
    rw [steps_cons, steps_cons, step_of_settled h hend,
      step_of_pair rfl hsecond (bne_iff_ne.mp hne)]
    exact ih (settled_of_ended rfl rest) rfl
  | case5 place c d rest hend hpair ih =>
    subst hplace
    rw [steps_cons, step_of_settled h hend]
    refine ih ?_ rfl
    rintro _ ⟨rfl⟩ _ ⟨rfl⟩ hsecond
    simpa [hsecond] using hpair
  | case6 place c d rest hend ih =>
    subst hplace
    rw [steps_cons, step_of_not_isLineEnd (Bool.not_eq_true _ ▸ hend)]
    exact ih (settled_of_ended rfl _) rfl

/-! ## Columns -/

/-- A scan counts the characters since the beginning of its line. -/
theorem of_line (text : Text) :
    (of text).offset = Text.size text ∧ ∃ before line, text = before ++ line ∧
      (of text).lineStart = Text.size before ∧ (of text).column = line.length + 1 := by
  induction text using List.reverseRecOn with
  | nil => exact ⟨rfl, [], [], rfl, rfl, rfl⟩
  | append_singleton text c ih =>
    obtain ⟨hoffset, before, line, htext, hstart, hcolumn⟩ := ih
    have hsize : Text.size (text ++ [c]) = Text.size text + c.utf8Size := by simp
    rw [of_append, steps_cons, steps_nil, hsize]
    cases hend : Text.isLineEnd c with
    | false =>
      rw [step_of_not_isLineEnd hend]
      refine ⟨congrArg (· + _) hoffset, before, line ++ [c], ?_, hstart, ?_⟩
      · rw [htext, List.append_assoc]
      · rw [List.length_append, hcolumn]
        rfl
    | true =>
      -- with either half of a break the line begins anew
      simp only [step, hend, if_true]
      split <;> exact ⟨congrArg (· + _) hoffset, text ++ [c], [], (List.append_nil _).symm,
        by rw [hsize, ← hoffset], rfl⟩

/-- A point of a source has the column that a scan of the text before it has counted. -/
theorem ofPlace_of (before behind : Text) :
    Position.ofPlace (before ++ behind) (of before).place = (of before).position := by
  obtain ⟨hoffset, first, line, rfl, hstart, hcolumn⟩ := of_line before
  have hwithin : Text.within (Text.size line) (line ++ behind) = line := by
    rw [Text.within_append (Nat.le_refl _), Text.within_size]
  rw [Position.ofPlace, Position.onLine, Scan.place, Scan.position, Position.mk.injEq]
  refine ⟨rfl, ?_⟩
  rw [Text.column, hstart, hoffset, Text.size_append, Nat.add_sub_cancel_left, List.append_assoc,
    Text.dropBytes_size, hcolumn]
  exact congrArg (·.length + 1) hwithin

/-- A carriage return and a line feed are one break in either order, and the two line feeds between
them belong to different breaks. -/
example : (of "ab\r\n\n\rcd".toList).position = ⟨3, 3⟩ := by decide

end Scan

/-! ## Texts that divide no break -/

namespace Text

variable {a b c text : Text}

/-- Whether no line break is divided between two texts. -/
def Parted (a b : Text) : Prop := ∀ scan : Scan, scan.Settled (a ++ b) → (scan.steps a).Settled b

/-- Nothing is parted from what follows. -/
theorem parted_nil_left (b : Text) : Parted [] b := fun _ h => h

/-- A text is parted from nothing behind it. -/
theorem parted_nil_right (a : Text) : Parted a [] := fun scan _ => (scan.steps a).settled_nil

/-- What begins with no line end goes on with no break. -/
theorem parted_of_head? (a : Text) (h : ∀ c ∈ b.head?, isLineEnd c = false) : Parted a b := by
  intro scan _ d _ c hc hend
  rw [h c hc] at hend
  cases hend

/-- What ends with no line end leaves no break unfinished. -/
theorem parted_of_getLast? (b : Text) (h : ∀ c ∈ a.getLast?, isLineEnd c = false) : Parted a b := by
  intro scan hscan
  rcases List.eq_nil_or_concat a with rfl | ⟨before, c, rfl⟩
  · exact hscan
  · have hc : isLineEnd c = false := h c (by simp)
    rw [List.concat_eq_append, Scan.steps_append, Scan.steps_cons, Scan.steps_nil,
      Scan.step_of_not_isLineEnd hc]
    exact Scan.settled_of_ended rfl b

/-- Two texts are parted from a third if the second is, and the first from both. -/
theorem Parted.append (h : Parted a (b ++ c)) (hbc : Parted b c) : Parted (a ++ b) c := by
  intro scan hscan
  rw [Scan.steps_append]
  rw [List.append_assoc] at hscan
  exact hbc _ (h scan hscan)

/-- A text can be parted behind a character that ends no line. -/
theorem parted_take {count : Nat} (h : ∀ c ∈ text[count]?, isLineEnd c = false) :
    Parted (text.take (count + 1)) (text.drop (count + 1)) := by
  rcases Nat.lt_or_ge count text.length with hlt | hge
  · refine parted_of_getLast? _ fun c hc => h c ?_
    rwa [List.take_add_one, List.getElem?_eq_getElem hlt, Option.toList_some, List.getLast?_concat,
      ← List.getElem?_eq_getElem hlt] at hc
  · rw [List.drop_eq_nil_of_le (by omega)]
    exact parted_nil_right _

/-- A line break is not divided from what comes behind it. -/
theorem parted_lineBreak (text : Text) :
    Parted (text.take (lineBreak text)) (text.drop (lineBreak text)) := by
  intro scan hscan
  rw [List.take_append_drop] at hscan
  match text with
  | [] => exact Scan.settled_nil _
  | [c] =>
    rw [lineBreak]
    split
    · exact Scan.settled_nil _
    · exact hscan
  | c :: d :: rest =>
    rw [lineBreak]
    cases hend : isLineEnd c with
    | false => exact hscan
    | true =>
      rw [if_pos rfl]
      split
      · next hpair =>
        obtain ⟨hsecond, hne⟩ := Bool.and_eq_true_iff.mp hpair
        refine Scan.settled_of_ended ?_ _
        show ((scan.step c).step d).ended = none
        rw [Scan.step_of_settled hscan hend, Scan.step_of_pair rfl hsecond (bne_iff_ne.mp hne)]
      · next hsingle =>
        show (scan.step c).Settled (d :: rest)
        rw [Scan.step_of_settled hscan hend]
        rintro _ ⟨rfl⟩ _ ⟨rfl⟩ hsecond
        simpa [hsecond] using hsingle

end Text

/-! ## Points of a source -/

namespace Text

/-- Whether an offset lies between two characters of a source, or at one of its ends. -/
def IsBoundary (source : Text) (offset : Nat) : Prop :=
  ∃ before behind, source = before ++ behind ∧ size before = offset

/-- The scan of a source from its beginning up to an offset. -/
def scanTo (source : Text) (offset : Nat) : Scan := .of (source.within offset)

/-- A boundary lies within the source. -/
theorem IsBoundary.le {source : Text} {offset : Nat} (h : source.IsBoundary offset) :
    offset ≤ size source := by
  obtain ⟨before, behind, rfl, rfl⟩ := h
  rw [size_append]
  omega

/-- To scan to the size of the front is to scan the front. -/
theorem scanTo_size (before behind : Text) : scanTo (before ++ behind) (size before) = .of before := by
  rw [scanTo, within_append (Nat.le_refl _), within_size]

end Text

/-- Whether the line of a place, and where it begins, are those of its offset. -/
def Place.Accurate (source : Text) (place : Place) : Prop :=
  source.IsBoundary place.offset ∧ place = (source.scanTo place.offset).place

/-- Whether the lines and columns of a placement are those of the two ends of its range, as far as both
are recorded. -/
def Placement.Accurate (source : Text) (placement : Placement) : Prop :=
  ∀ location ∈ placement.location, ∀ range ∈ placement.range,
    source.IsBoundary range.start ∧ source.IsBoundary range.stop ∧
      location.start = (source.scanTo range.start).position ∧
      location.stop = (source.scanTo range.stop).position

namespace Place

variable {source a b : Text} {place first last : Place}

/-- Whether a place is where a scan comes to in a source, with a text behind it that does not go on with
the break before it. -/
def Marks (source : Text) (place : Place) (behind : Text) : Prop :=
  ∃ before, source = before ++ behind ∧ place = (Scan.of before).place ∧
    (Scan.of before).Settled behind

/-- The start marks the whole source. -/
theorem marks_start (source : Text) : start.Marks source source :=
  ⟨[], rfl, rfl, Scan.settled_of_ended rfl _⟩

/-- Walking over a text that divides no break marks the place behind it. -/
theorem Marks.after (h : place.Marks source (a ++ b)) (hab : Text.Parted a b) :
    (place.after a).Marks source b := by
  obtain ⟨before, rfl, rfl, hsettled⟩ := h
  refine ⟨before ++ a, (List.append_assoc _ _ _).symm, ?_, ?_⟩
  · rw [Scan.of_append, Scan.place_steps hsettled.left]
  · rw [Scan.of_append]
    exact hab _ hsettled

/-- What is marked is accurate. -/
theorem Marks.accurate (h : place.Marks source b) : place.Accurate source := by
  obtain ⟨before, rfl, rfl, -⟩ := h
  have hoffset : (Scan.of before).place.offset = Text.size before := (Scan.of_line before).1
  rw [Accurate, hoffset, Text.scanTo_size]
  exact ⟨⟨before, b, rfl, rfl⟩, rfl⟩

/-- An accurate place has the line and the column that a scan has counted. -/
theorem Accurate.ofPlace_eq (h : place.Accurate source) :
    Position.ofPlace source place = (source.scanTo place.offset).position := by
  obtain ⟨⟨before, behind, rfl, hoffset⟩, hplace⟩ := h
  rw [← hoffset, Text.scanTo_size] at hplace
  rw [← hoffset, Text.scanTo_size, hplace, Scan.ofPlace_of]

/-- What stands between two accurate places is placed accurately. -/
theorem Accurate.between (hfirst : first.Accurate source) (hlast : last.Accurate source)
    (options : ParseOptions) : (Placement.between options source first last).Accurate source := by
  intro location hlocation range hrange
  simp only [Placement.between, Option.mem_def, Option.ite_none_right_eq_some, Option.some.injEq]
    at hlocation hrange
  obtain ⟨-, rfl⟩ := hlocation
  obtain ⟨-, rfl⟩ := hrange
  exact ⟨hfirst.1, hlast.1, hfirst.ofPlace_eq, hlast.ofPlace_eq⟩

end Place

/-! ## Points at which a text can be parted -/

namespace Text

variable {text : Text}

/-- Whether a text can be parted behind so many characters without dividing a line break. -/
def PartedAt (text : Text) (count : Nat) : Prop := Parted (text.take count) (text.drop count)

/-- Whether no character of a text ends a line. -/
def OneLine (text : Text) : Prop := ∀ c ∈ text, isLineEnd c = false

/-- Characters of a kind end no line if neither of the two ends of a line is of it. -/
theorem not_isLineEnd {p : Char → Bool} (hfeed : p '\n' = false) (hreturn : p '\r' = false) (c : Char)
    (h : p c = true) : isLineEnd c = false := by
  by_contra hend
  rw [Bool.not_eq_false, isLineEnd, Bool.or_eq_true, beq_iff_eq, beq_iff_eq] at hend
  rcases hend with rfl | rfl
  · rw [hfeed] at h
    cases h
  · rw [hreturn] at h
    cases h

/-- A digit ends no line. -/
theorem isLineEnd_of_isDigit (c : Char) (h : c.isDigit = true) : isLineEnd c = false :=
  not_isLineEnd rfl rfl c h

/-- A hexadecimal digit ends no line. -/
theorem isLineEnd_of_isHex (c : Char) (h : Digit.isHex c = true) : isLineEnd c = false :=
  not_isLineEnd rfl rfl c h

/-- No part of a name ends a line. -/
theorem isLineEnd_of_isPart (extended : Bool) (c : Char) (h : NameCharacter.isPart extended c = true) :
    isLineEnd c = false :=
  not_isLineEnd (by cases extended <;> rfl) (by cases extended <;> rfl) c h

/-! ### Rows of characters on one line -/

/-- The empty text is on one line. -/
theorem oneLine_nil : OneLine [] := List.forall_mem_nil _

/-- A character that ends no line may stand in front of a text on one line. -/
theorem oneLine_take_of_cons {c : Char} {rest : Text} {count : Nat} (hc : isLineEnd c = false)
    (h : OneLine (rest.take count)) : OneLine ((c :: rest).take (count + 1)) :=
  List.forall_mem_cons.mpr ⟨hc, h⟩

/-- A text without the end of a line is on one line. -/
theorem oneLine_take {count : Nat} (h : ∀ i < count, ∀ c ∈ text[i]?, isLineEnd c = false) :
    OneLine (text.take count) := by
  intro c hmem
  obtain ⟨i, hi, rfl⟩ := List.mem_take_iff_getElem.mp hmem
  exact h i (by omega) _ (List.getElem?_eq_getElem _)

/-- Two parts on one line are on one line together. -/
theorem OneLine.take_add {a b : Nat} (h : OneLine (text.take a))
    (hb : OneLine ((text.drop a).take b)) : OneLine (text.take (a + b)) := by
  rw [List.take_add]
  exact List.forall_mem_append.mpr ⟨h, hb⟩

/-- The front of a text on one line is on one line. -/
theorem OneLine.of_take_add {a b : Nat} (h : OneLine (text.take (a + b))) :
    OneLine (text.take a) := by
  rw [List.take_add] at h
  exact (List.forall_mem_append.mp h).1

/-- A run of characters that end no line is on one line. -/
theorem oneLine_takeWhile {p : Char → Bool} (hp : ∀ c, p c = true → isLineEnd c = false)
    (text : Text) : OneLine (text.takeWhile p) :=
  fun c hmem => hp c (List.mem_takeWhile_imp hmem)

/-- The length of a run covers a text on one line. -/
theorem oneLine_run {p : Char → Bool} (hp : ∀ c, p c = true → isLineEnd c = false) (text : Text) :
    OneLine (text.take (text.takeWhile p).length) := by
  rw [← List.prefix_iff_eq_take.mp (List.takeWhile_prefix p)]
  exact oneLine_takeWhile hp text

/-! ### Points between two characters -/

/-- A text may be cut at its start. -/
theorem partedAt_zero (text : Text) : text.PartedAt 0 := parted_nil_left _

/-- A text may be cut at its end. -/
theorem partedAt_of_length_le {count : Nat} (h : text.length ≤ count) : text.PartedAt count := by
  rw [PartedAt, List.drop_eq_nil_of_le h]
  exact parted_nil_right _

/-- A text on one line may be cut behind it. -/
theorem OneLine.partedAt {count : Nat} (h : OneLine (text.take count)) : text.PartedAt count :=
  parted_of_getLast? _ fun c hc => h c (List.mem_of_getLast? hc)

/-- A text may be cut behind a second part if it may behind the first. -/
theorem PartedAt.add {a b : Nat} (h : text.PartedAt a) (hb : PartedAt (text.drop a) b) :
    text.PartedAt (a + b) := by
  have hb' : Parted ((text.drop a).take b) (text.drop (a + b)) := by
    rwa [PartedAt, List.drop_drop] at hb
  rw [PartedAt, List.take_add]
  refine Parted.append ?_ hb'
  rwa [← List.drop_drop, List.take_append_drop]

/-- A first character that ends no line changes nothing. -/
theorem partedAt_cons {c : Char} {rest : Text} {count : Nat} (hc : isLineEnd c = false)
    (h : rest.PartedAt count) : PartedAt (c :: rest) (count + 1) := by
  rw [Nat.add_comm]
  exact PartedAt.add (OneLine.partedAt (oneLine_take_of_cons hc oneLine_nil)) h

/-- Behind all blanks and line ends there is no line end. -/
theorem partedAt_blanks (text : Text) :
    text.PartedAt (countWhile (fun d => isBlank d || isLineEnd d) text) := by
  refine parted_of_head? _ fun c hc => ?_
  rw [drop_countWhile, ← List.find?_not_eq_head?_dropWhile] at hc
  have hno := List.find?_some hc
  rw [Bool.not_eq_true', Bool.or_eq_false_iff] at hno
  exact hno.2

end Text

/-- Behind a text on one line the line is the same. -/
theorem Place.line_after {text : Text} (h : text.OneLine) (place : Place) : (place.after text).line = place.line := by
  fun_induction Place.after place text with
  | case1 => rfl
  | case2 place c hend => exact absurd hend (Bool.eq_false_iff.mp (h c List.mem_cons_self))
  | case3 => rfl
  | case4 place c d rest hend => exact absurd hend (Bool.eq_false_iff.mp (h c List.mem_cons_self))
  | case5 place c d rest hend => exact absurd hend (Bool.eq_false_iff.mp (h c List.mem_cons_self))
  | case6 place c d rest hend ih => exact ih (List.forall_mem_cons.mp h).2

end LuaSyntax
