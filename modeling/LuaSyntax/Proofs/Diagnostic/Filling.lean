import LuaSyntax.Diagnostic.Template
import LuaSyntax.Proofs.Text.Bytes
import LuaSyntax.Proofs.Text.Runs

/-!
# Filling templates

Templates quote source text, and source text may hold braces. So it matters that a template is read once and that what
is quoted is not read at all.

`Reads` says how a template is read for a number of arguments, with no argument at hand: from left to right, where a
hole begins that has an argument it is read whole, and otherwise one character is read that stays as it is. What is
written between braces but is no hole, or has no argument, stays for that reason. Every template can be read
(`exists_reads`), in one way only (`Reads.unique`), and to fill it is to put arguments in the place of the holes that
were read (`Reads.fillFrom_eq`).

A template can also be filled without going through its characters. The first opening brace is looked for among the
bytes of what is left of it, and digits are counted in bytes behind the brace; then what stands before the brace, the
digits and what stands behind them are cut out at the offsets that were found, and the same is done with what is then
left. `fillSliced` is that loop. It is undefined where an offset is none between two characters, and where it turns more
often than it may. The number of a hole is a machine number, and digits that are too many for one are no number. The
loop has a result with no more turns than the template has opening braces and one more, whatever the template, and its
result is that of filling the template as it is read (`exists_filling`).
-/

namespace LuaSyntax.Template

/-! ## Reading -/

/-- A hole as it is written. -/
def written (digits : List Char) : List Char := opening :: (digits ++ [closing])

/-- Whether digits number a hole that one of so many arguments fills. -/
structure Fills (count : Nat) (digits : List Char) : Prop where
  ne_nil : digits ≠ []
  isDigit : ∀ c ∈ digits, c.isDigit = true
  lt : Digit.decimal digits < count

/-- What a template is made of. -/
inductive Part where
  /-- A character that stays as it is. -/
  | kept (c : Char)
  /-- A hole with the digits of its number. -/
  | hole (digits : List Char)

/-- What a part is filled with. -/
def Part.filled (arguments : List String) : Part → List Char
  | .kept c => [c]
  | .hole digits => (arguments[Digit.decimal digits]?).elim (written digits) String.toList

/-- How a template is read for so many arguments. -/
inductive Reads (count : Nat) : List Char → List Part → Prop where
  | nothing : Reads count [] []
  | hole {digits rest : List Char} {parts : List Part} (hfills : Fills count digits) (h : Reads count rest parts) :
      Reads count (written digits ++ rest) (.hole digits :: parts)
  | kept {c : Char} {rest : List Char} {parts : List Part}
      (hnone : ∀ digits behind, c :: rest = written digits ++ behind → ¬ Fills count digits)
      (h : Reads count rest parts) : Reads count (c :: rest) (.kept c :: parts)

/-! ## Holes -/

section

variable {arguments : List String} {count index length : Nat} {c : Char}
  {text digits others run tail rest behind : List Char} {parts : List Part}

/-- A hole that is written before other characters begins with its opening and ends before them. -/
theorem written_append (digits behind : List Char) :
    written digits ++ behind = opening :: (digits ++ closing :: behind) := by
  rw [written, List.cons_append, List.append_assoc]
  rfl

/-- Every text is some digits and what follows them. -/
theorem exists_run (text : List Char) : ∃ run tail, text = run ++ tail ∧ (∀ c ∈ run, c.isDigit = true) ∧
    ∀ c ∈ tail.head?, c.isDigit = false := by
  have hparts : text.takeWhile Char.isDigit ++ text.dropWhile Char.isDigit = text := List.takeWhile_append_dropWhile
  exact ⟨_, _, hparts.symm, Text.takeWhile_append_iff.mp (congrArg (List.takeWhile Char.isDigit) hparts)⟩

/-- What is taken for a hole behind its opening are all digits that follow, if there are any and the closing stands
behind them. -/
theorem hole?_append (hrun : ∀ c ∈ run, c.isDigit = true) (htail : ∀ c ∈ tail.head?, c.isDigit = false) :
    hole? (run ++ tail) =
      if run ≠ [] ∧ tail.head? = some closing then some (Digit.decimal run, run.length + 1) else none := by
  unfold hole?
  rw [Text.takeWhile_append_iff.mpr ⟨hrun, htail⟩]
  dsimp only
  rw [List.drop_left]
  cases run with
  | nil => rfl
  | cons first run =>
    cases tail with
    | nil => rfl
    | cons c tail => by_cases hc : c = closing <;> simp [hc]

/-- The closing of a hole is no digit. -/
theorem not_isDigit_closing (behind : List Char) : ∀ c ∈ (closing :: behind).head?, c.isDigit = false := by
  intro c hmem
  rw [List.head?_cons, Option.mem_some_iff] at hmem
  rw [← hmem]
  rfl

/-- A hole stands behind a brace if digits do and a closing brace behind them. -/
theorem hole?_eq_some_iff : hole? text = some (index, length) ↔ ∃ digits behind, text = digits ++ closing :: behind ∧
    digits ≠ [] ∧ (∀ c ∈ digits, c.isDigit = true) ∧ index = Digit.decimal digits ∧ length = digits.length + 1 := by
  constructor
  · intro h
    obtain ⟨run, tail, rfl, hrun, htail⟩ := exists_run text
    rw [hole?_append hrun htail] at h
    split at h
    · next hclosed =>
      obtain ⟨behind, rfl⟩ := List.head?_eq_some_iff.mp hclosed.2
      obtain ⟨rfl, rfl⟩ := Prod.mk.inj (Option.some.inj h)
      exact ⟨run, behind, rfl, hclosed.1, hrun, rfl, rfl⟩
    · cases h
  · rintro ⟨digits, behind, rfl, hne, hdigits, rfl, rfl⟩
    rw [hole?_append hdigits (not_isDigit_closing behind), if_pos ⟨hne, rfl⟩]

/-- The digits of a hole can be told from what is behind it. -/
theorem written_append_inj (hdigits : ∀ c ∈ digits, c.isDigit = true) (hothers : ∀ c ∈ others, c.isDigit = true)
    (h : written digits ++ rest = written others ++ behind) : digits = others ∧ rest = behind := by
  rw [written_append, written_append] at h
  have heq := (List.cons.inj h).2
  have hrun := Text.takeWhile_append_iff.mpr ⟨hdigits, not_isDigit_closing rest⟩
  rw [heq, Text.takeWhile_append_iff.mpr ⟨hothers, not_isDigit_closing behind⟩] at hrun
  subst hrun
  exact ⟨rfl, (List.cons.inj (List.append_cancel_left heq)).2⟩

/-! ## Filling -/

/-- To skip characters is to fill what is left without them. -/
theorem fillFrom_skip (arguments : List String) (skip : Nat) (text : List Char) :
    fillFrom arguments skip text = fillFrom arguments 0 (text.drop skip) := by
  induction text generalizing skip with
  | nil => cases skip <;> rfl
  | cons c rest ih =>
    cases skip with
    | zero => rfl
    | succ skip => rw [fillFrom, ih, List.drop_succ_cons]

/-- What is put in the place of a hole is not read. -/
theorem fillFrom_hole (h : Fills arguments.length digits) (rest : List Char) :
    fillFrom arguments 0 (written digits ++ rest) =
      Part.filled arguments (.hole digits) ++ fillFrom arguments 0 rest := by
  have hhole : hole? (digits ++ closing :: rest) = some (Digit.decimal digits, digits.length + 1) :=
    hole?_eq_some_iff.mpr ⟨digits, rest, rfl, h.ne_nil, h.isDigit, rfl, rfl⟩
  have hdrop : (digits ++ closing :: rest).drop (digits.length + 1) = rest := by
    rw [List.append_cons, List.drop_left' (by simp)]
  have hargument := List.getElem?_eq_getElem h.lt
  rw [written_append, fillFrom, if_pos (beq_self_eq_true opening), hhole, Part.filled]
  simp only [hargument]
  rw [fillFrom_skip, hdrop]
  rfl

/-- A character that begins no hole of the arguments is kept. -/
theorem fillFrom_kept
    (hnone : ∀ digits behind, c :: rest = written digits ++ behind → ¬ Fills arguments.length digits) :
    fillFrom arguments 0 (c :: rest) = c :: fillFrom arguments 0 rest := by
  rw [fillFrom]
  split
  · next hopening =>
    cases hhole : hole? rest with
    | none => rfl
    | some hole =>
      obtain ⟨index, length⟩ := hole
      obtain ⟨digits, behind, rfl, hne, hdigits, rfl, -⟩ := hole?_eq_some_iff.mp hhole
      have hcount : arguments.length ≤ Digit.decimal digits := by
        apply Nat.le_of_not_lt
        intro hlt
        refine hnone digits behind ?_ ⟨hne, hdigits, hlt⟩
        rw [written_append, beq_iff_eq.mp hopening]
      simp only [List.getElem?_eq_none hcount]
  · rfl

/-- Arguments stand where the holes were that have been read, and all else is as it was. -/
theorem Reads.fillFrom_eq (h : Reads arguments.length text parts) :
    fillFrom arguments 0 text = parts.flatMap (Part.filled arguments) := by
  generalize hcount : arguments.length = count at h
  induction h with
  | nothing => rfl
  | hole hfills _ ih =>
    subst hcount
    rw [fillFrom_hole hfills, ih, List.flatMap_cons]
  | kept hnone _ ih =>
    subst hcount
    rw [fillFrom_kept hnone, ih, List.flatMap_cons]
    rfl

/-- There is one way to read a text. -/
theorem Reads.unique (h : Reads count text parts) {parts' : List Part} (h' : Reads count text parts') :
    parts = parts' := by
  induction h generalizing parts' with
  | nothing => cases h' with
    | nothing => rfl
  | @hole digits rest parts hfills _ ih =>
    generalize htext : written digits ++ rest = text at h'
    cases h' with
    | nothing => cases htext
    | hole hfills' h' =>
      obtain ⟨rfl, rfl⟩ := written_append_inj hfills.isDigit hfills'.isDigit htext
      rw [ih h']
    | kept hnone => exact absurd hfills (hnone _ _ htext.symm)
  | @kept c rest parts hnone _ ih =>
    generalize htext : c :: rest = text at h'
    cases h' with
    | nothing => cases htext
    | hole hfills' => exact absurd hfills' (hnone _ _ htext)
    | kept _ h' =>
      obtain ⟨rfl, rfl⟩ := List.cons.inj htext
      rw [ih h']

/-- Every text can be read. -/
theorem exists_reads (count : Nat) (text : List Char) : ∃ parts, Reads count text parts := by
  induction hlength : text.length using Nat.strong_induction_on generalizing text with
  | _ length ih =>
    cases text with
    | nil => exact ⟨[], .nothing⟩
    | cons c rest =>
      -- a hole is read where one begins and a character elsewhere, and what is left is shorter
      by_cases hhole : ∃ digits behind, c :: rest = written digits ++ behind ∧ Fills count digits
      · obtain ⟨digits, behind, heq, hfills⟩ := hhole
        have hlt : behind.length < length := by
          rw [← hlength, heq, List.length_append, written, List.length_cons]
          omega
        obtain ⟨parts, h⟩ := ih behind.length hlt behind rfl
        rw [heq]
        exact ⟨_, .hole hfills h⟩
      · have hlt : rest.length < length := by
          rw [← hlength, List.length_cons]
          exact Nat.lt_succ_self _
        obtain ⟨parts, h⟩ := ih rest.length hlt rest rfl
        exact ⟨_, .kept (fun digits behind heq hfills => hhole ⟨digits, behind, heq, hfills⟩) h⟩

end

/-! ## Filling by bytes -/

/-- The number that some digits denote, unless a machine number is too small for it. -/
def number? (limit : Nat) (digits : List Char) : Option Nat :=
  digits.foldlM (fun number digit =>
    let next := number * 10 + Digit.value digit
    if next < limit then some next else none) 0

/-- The offset of the first opening brace. -/
def openingAt? (text : Text) : Option Nat :=
  let offset := (text.latin.takeWhile fun byte => !(byte == opening)).length
  if offset < text.bytes.length then some offset else none

/-- How many bytes at the front of a text are digits. -/
def digitCount (text : Text) : Nat := (text.latin.takeWhile Char.isDigit).length

/-- The argument of the hole that stands behind an opening brace, if one does and there is such an argument. -/
def argumentBehind (limit : Nat) (arguments : List String) (after : Text) : Option (Option String) := do
  let digits := digitCount after
  if 0 < digits then
    let behind ← after.slice? digits after.bytes.length
    if behind.head? = some closing then
      let row ← after.slice? 0 digits
      pure ((number? limit row).bind (arguments[·]?))
    else pure none
  else pure none

/-- Fills what is left of a template, behind what is done, in so many turns at most. -/
def fillSliced (limit : Nat) (arguments : List String) : Nat → Text → Text → Option Text
  | 0, _, _ => none
  | turns + 1, done, rest =>
    match openingAt? rest with
    | none => some (done ++ rest)
    | some offset => do
      let before ← rest.slice? 0 offset
      let after ← rest.slice? (offset + 1) rest.bytes.length
      match ← argumentBehind limit arguments after with
      | some argument =>
        let rest ← after.slice? (digitCount after + 1) after.bytes.length
        fillSliced limit arguments turns (done ++ before ++ argument.toList) rest
      | none => fillSliced limit arguments turns (done ++ before ++ [opening]) after

section

variable {arguments : List String} {limit turns index length : Nat} {before after rest run tail : List Char}

/-! ## Numbers -/

/-- The number that digits write is no less than what was read of it already. -/
theorem le_foldl_decimal (digits : List Char) (number : Nat) :
    number ≤ digits.foldl (fun number digit => number * 10 + Digit.value digit) number := by
  induction digits generalizing number with
  | nil => exact Nat.le_refl _
  | cons digit digits ih =>
    rw [List.foldl_cons]
    exact Nat.le_trans (by omega) (ih _)

/-- Digits are a number unless it is too large, for a row of digits denotes no less than the digits before. -/
theorem number?_eq (hlimit : 0 < limit) (digits : List Char) :
    number? limit digits = if Digit.decimal digits < limit then some (Digit.decimal digits) else none := by
  unfold number? Digit.decimal
  generalize 0 = number at hlimit
  induction digits generalizing number with
  | nil => exact (if_pos hlimit).symm
  | cons digit digits ih =>
    rw [List.foldlM_cons, List.foldl_cons]
    dsimp only
    by_cases hnext : number * 10 + Digit.value digit < limit
    · rw [if_pos hnext, Option.bind_eq_bind, Option.bind_some, ih _ hnext]
    · have hle := le_foldl_decimal digits (number * 10 + Digit.value digit)
      rw [if_neg hnext, if_neg (by omega)]
      rfl

/-- Digits that are no machine number are the number of no argument. -/
theorem number?_bind (hlimit : arguments.length ≤ limit) (digits : List Char) :
    (number? limit digits).bind (arguments[·]?) = arguments[Digit.decimal digits]? := by
  rcases Nat.eq_zero_or_pos limit with rfl | hpos
  · rw [List.eq_nil_of_length_eq_zero (Nat.le_zero.mp hlimit)]
    cases number? 0 digits <;> rfl
  · rw [number?_eq hpos]
    split
    · rfl
    · rw [List.getElem?_eq_none (by omega)]
      rfl

/-! ## Cuts -/

/-- The front of a text can be cut out of it. -/
theorem slice?_front (front behind : Text) : (front ++ behind).slice? 0 front.size = some front := by
  have hslice := Text.slice?_of_parts [] front behind
  rwa [List.nil_append, Text.size_nil, Nat.zero_add] at hslice

/-- What stands behind the front of a text can be cut out of it. -/
theorem slice?_behind (front behind : Text) :
    (front ++ behind).slice? front.size (front ++ behind).bytes.length = some behind := by
  have hslice := Text.slice?_of_parts front behind []
  rwa [List.append_nil, ← Text.size_append, ← Text.length_bytes (front ++ behind)] at hslice

/-- No byte of another character is taken for the opening of a hole. -/
theorem uniform_not_opening : Text.Uniform fun c => !(c == opening) := (Text.ascii_beq (by decide)).uniform_not

/-- Where no opening stands, every character passes the test for none. -/
theorem not_opening (hmem : opening ∉ rest) : ∀ c ∈ rest, (!(c == opening)) = true := by
  intro c hc
  rw [Bool.not_eq_true', beq_eq_false_iff_ne]
  rintro rfl
  exact hmem hc

/-- Where no opening stands, none is found. -/
theorem openingAt?_none (hmem : opening ∉ rest) : openingAt? rest = none := by
  unfold openingAt?
  rw [Text.takeWhile_latin uniform_not_opening, List.takeWhile_eq_self_iff.mpr (not_opening hmem),
    Text.length_latin, Text.length_bytes]
  exact if_neg (Nat.lt_irrefl _)

/-- The opening that is found is the first. -/
theorem openingAt?_append (hmem : opening ∉ before) :
    openingAt? (before ++ opening :: after) = some (Text.size before) := by
  have hrun : (before ++ opening :: after).takeWhile (fun c => !(c == opening)) = before :=
    Text.takeWhile_append_iff.mpr ⟨not_opening hmem, fun c hc => by
      rw [List.head?_cons, Option.mem_some_iff] at hc
      rw [← hc, beq_self_eq_true]
      rfl⟩
  have hsize : Text.size before < Text.size (before ++ opening :: after) := by
    rw [Text.size_append, Text.size_cons]
    have hpos := opening.utf8Size_pos
    omega
  unfold openingAt?
  rw [Text.takeWhile_latin uniform_not_opening, hrun, Text.length_latin, Text.length_bytes]
  exact if_pos hsize

/-- Digits are bytes. -/
theorem size_of_isDigit (hrun : ∀ c ∈ run, c.isDigit = true) : Text.size run = run.length :=
  Text.size_of_forall_lt fun c hc => Text.ascii_isDigit.lt (hrun c hc)

/-- The digits that are counted are all that stand before something else. -/
theorem digitCount_append (hrun : ∀ c ∈ run, c.isDigit = true) (htail : ∀ c ∈ tail.head?, c.isDigit = false) :
    digitCount (run ++ tail) = run.length := by
  unfold digitCount
  rw [Text.takeWhile_latin Text.ascii_isDigit.uniform, Text.takeWhile_append_iff.mpr ⟨hrun, htail⟩, Text.length_latin,
    size_of_isDigit hrun]

/-! ## Turns -/

/-- What is found behind a brace by bytes is the argument of the hole that is there. -/
theorem argumentBehind_eq (hlimit : arguments.length ≤ limit) (after : Text) :
    argumentBehind limit arguments after = some ((hole? after).bind fun hole => arguments[hole.1]?) := by
  obtain ⟨run, tail, rfl, hrun, htail⟩ := exists_run after
  have hsize := size_of_isDigit hrun
  have hfront := slice?_front run tail
  have hbehind := slice?_behind run tail
  rw [hsize] at hfront hbehind
  unfold argumentBehind
  rw [digitCount_append hrun htail, hole?_append hrun htail]
  dsimp only
  by_cases hdigits : run = []
  · rw [if_neg (by simp [hdigits]), if_neg (by simp [hdigits])]
    rfl
  · rw [if_pos (List.length_pos_of_ne_nil hdigits), hbehind, Option.bind_eq_bind, Option.bind_some]
    by_cases hclosed : tail.head? = some closing
    · rw [if_pos hclosed, if_pos ⟨hdigits, hclosed⟩, hfront, Option.bind_some, number?_bind hlimit]
      rfl
    · rw [if_neg hclosed, if_neg fun h => hclosed h.2]
      rfl

/-- The hole that is there is cut off behind its closing brace. -/
theorem slice?_of_hole (hhole : hole? after = some (index, length)) :
    Text.slice? after (digitCount after + 1) (Text.bytes after).length = some (after.drop length) := by
  obtain ⟨digits, behind, rfl, -, hdigits, -, rfl⟩ := hole?_eq_some_iff.mp hhole
  have hsize : Text.size (digits ++ [closing]) = digits.length + 1 := by
    rw [Text.size_append, size_of_isDigit hdigits]
    rfl
  rw [digitCount_append hdigits (not_isDigit_closing behind), List.append_cons, ← hsize, slice?_behind,
    List.drop_left' (by rw [hsize, List.length_append]; rfl)]

/-- Text without an opening is kept as it is. -/
theorem fillFrom_before (hmem : opening ∉ before) (rest : List Char) :
    fillFrom arguments 0 (before ++ rest) = before ++ fillFrom arguments 0 rest := by
  induction before with
  | nil => rfl
  | cons c before ih =>
    obtain ⟨hc, hbefore⟩ := List.ne_and_not_mem_of_not_mem_cons hmem
    rw [List.cons_append, fillFrom, if_neg (by simpa using hc.symm), ih hbefore, List.cons_append]

/-- The loop fills what is left of a template, if it may turn once for each opening brace in it and once more. -/
theorem fillSliced_eq (hlimit : arguments.length ≤ limit) (hturns : rest.count opening < turns) (done : Text) :
    fillSliced limit arguments turns done rest = some (done ++ fillFrom arguments 0 rest) := by
  induction turns generalizing done rest with
  | zero => exact absurd hturns (Nat.not_lt_zero _)
  | succ turns ih =>
    by_cases hmem : opening ∈ rest
    · obtain ⟨before, after, rfl, hbefore⟩ := List.eq_append_cons_of_mem hmem
      -- a turn goes past one opening brace at least, so the turns that are left do for those behind it
      have hcount : after.count opening < turns := by
        rw [List.count_append, List.count_cons_self] at hturns
        omega
      have hafter : Text.slice? (before ++ opening :: after) (Text.size before + 1)
          (Text.bytes (before ++ opening :: after)).length = some after := by
        have hslice := slice?_behind (before ++ [opening]) after
        rwa [Text.size_append, List.append_assoc] at hslice
      rw [fillSliced, openingAt?_append hbefore]
      dsimp only
      rw [slice?_front, hafter]
      simp only [Option.bind_eq_bind, Option.bind_some, argumentBehind_eq hlimit]
      rw [fillFrom_before hbefore, fillFrom, if_pos (beq_self_eq_true opening)]
      cases hhole : hole? after with
      | none =>
        dsimp only
        rw [Option.bind_none]
        dsimp only
        rw [ih hcount, List.append_assoc, List.append_assoc]
        rfl
      | some hole =>
        obtain ⟨index, length⟩ := hole
        dsimp only
        rw [Option.bind_some]
        cases arguments[index]? with
        | none =>
          dsimp only
          rw [ih hcount, List.append_assoc, List.append_assoc]
          rfl
        | some argument =>
          have hfewer : (after.drop length).count opening < turns :=
            Nat.lt_of_le_of_lt ((List.drop_sublist length after).count_le opening) hcount
          dsimp only
          rw [slice?_of_hole hhole, Option.bind_some, ih hfewer, fillFrom_skip arguments length, List.append_assoc,
            List.append_assoc]
    · have hkept := @fillFrom_before arguments rest hmem []
      rw [List.append_nil] at hkept
      rw [fillSliced, openingAt?_none hmem, hkept, fillFrom, List.append_nil]

end

/-- What there is to a template that is filled with so many arguments. -/
structure Filling (template : String) (count : Nat) (parts : List Part) : Prop where
  /-- There is one way to read the template, whatever the arguments are. -/
  reads_iff : ∀ others, Reads count template.toList others ↔ others = parts
  /-- Each argument stands where its holes were, as it is, and all else is as it is written. -/
  filled : ∀ arguments : List String, arguments.length = count →
    (fill template arguments).toList = parts.flatMap (Part.filled arguments)
  /-- The loop over the bytes makes no cut within a character, ends, and has the same result. -/
  sliced : ∀ (arguments : List String) (limit : Nat), arguments.length = count → count ≤ limit →
    fillSliced limit arguments (template.toList.count opening + 1) [] template.toList =
      some (fill template arguments).toList

/-- A template is read once, without its arguments, and they are put in the place of the holes that have one. -/
theorem exists_filling (template : String) (count : Nat) : ∃ parts, Filling template count parts := by
  obtain ⟨parts, hreads⟩ := exists_reads count template.toList
  refine ⟨parts, ?_, ?_, ?_⟩
  · intro others
    constructor
    · intro h
      exact h.unique hreads
    · rintro rfl
      exact hreads
  · rintro arguments rfl
    rw [fill, String.toList_ofList, hreads.fillFrom_eq]
  · rintro arguments limit rfl hlimit
    rw [fillSliced_eq hlimit (Nat.lt_succ_self _), fill, String.toList_ofList, List.nil_append]

/-- A hole within an argument is not filled, nor is one without an argument. -/
example : fill "\x7b0\x7d \x7b1\x7d \x7b2\x7d" ["\x7b1\x7d", "b"] = "\x7b1\x7d b \x7b2\x7d" := by decide

end LuaSyntax.Template
