import LuaSyntax.Proofs.Reading.Forms.LongBrackets
import LuaSyntax.Proofs.Reading.Guarded.Strings
import LuaSyntax.Token.Lexeme

/-!
# Guarded reading of long brackets

A long bracket is searched for its closer byte by byte: up to the next square bracket or line end, which is never a
byte of a longer character. A bracket that closes nothing is passed over, and so is a line break, which has to be counted.
What stands between the opener and the closer is cut out of the source by the offsets of the two.
-/

namespace LuaSyntax

namespace Guarded

variable {α : Type} (source : Text)

/-- How many equals signs there are behind the byte that is next. -/
def levelAhead : Guarded Nat := do
  let place ← here
  pure ((source.latin.drop (place.offset + 1)).takeWhile (· == '=')).length

/-- Whether the bytes that are next are the closer of a level. -/
def closes (level : Nat) : Guarded Bool := do
  let place ← here
  pure ((LongBracket.closer level).isPrefixOf (source.latin.drop place.offset))

/-- Whether a character means something in a long bracket: a square bracket that may close it, or a line end. -/
def isStop (c : Char) : Bool := c == ']' || Text.isLineEnd c

/-- What is wrong with a long bracket that is never closed. -/
def unclosed (comment : Bool) : Message := if comment then .unfinishedLongComment else .unfinishedLongString

/-- Passes over the content of a long bracket and its closer, and gives the offset of the closer. -/
def bracketBody (comment : Bool) (line level : Nat) : Nat → Guarded Nat
  | 0 => undefined
  | turns + 1 => do
    skip source fun c => !(isStop c)
    match ← peek source 0 with
    | none => fail source (unclosed comment) [(toString line).toList, "<eof>".toList]
    | some c =>
      if c == ']' then do
        if ← closes source level then do
          let stop ← here
          advance source (level + 2)
          pure stop.offset
        else do
          advance source 1
          bracketBody comment line level turns
      else do
        let _ ← breakLine source
        bracketBody comment line level turns

/-- Passes over the long bracket that may begin with the byte that is next, and gives the offsets of its content. -/
def longBracket (comment : Bool) : Guarded (Option (Nat × Nat)) := do
  let first ← here
  let level ← levelAhead source
  if (← peek source (level + 1)) != some '[' then pure none
  else do
    advance source (level + 2)
    let _ ← breakLine source
    let start ← here
    let stop ← bracketBody source comment first.line level (turns source)
    pure (some (start.offset, stop))

/-- Reads a long string. -/
def longString : Guarded TokenValue := do
  let start ← here
  match ← longBracket source false with
  | some (first, last) => do
    let content ← given (source.slice? first last)
    pure (.string (String.ofList content))
  | none => do
    advance source 1
    skip source (· == '=')
    wrong source start.offset 0 .invalidLongBracket []

end Guarded

namespace Text

variable {sought rest : Text}

/-- Whether a text begins with some characters of ASCII can be told from its bytes. -/
theorem isPrefixOf_latin (h : ∀ c ∈ sought, c.toNat < 0x80) (rest : Text) :
    sought.isPrefixOf rest.latin = sought.isPrefixOf rest := by
  induction sought generalizing rest with
  | nil => rfl
  | cons c sought ih =>
    obtain ⟨hc, hsought⟩ := List.forall_mem_cons.mp h
    cases rest with
    | nil => rfl
    | cons d rest =>
      rw [latin_cons]
      rcases Nat.lt_or_ge d.toNat 0x80 with hlt | hge
      · rw [latin_of_lt hlt, List.singleton_append, List.isPrefixOf_cons_cons, List.isPrefixOf_cons_cons, ih hsought]
      · obtain ⟨tails, htails⟩ := latin_eq_front d
        have hne {e : Char} (he : 0x80 ≤ e.toNat) : (c == e) = false := by
          rw [beq_eq_false_iff_ne]
          rintro rfl
          omega
        rw [htails, List.cons_append, List.isPrefixOf_cons_cons, List.isPrefixOf_cons_cons, hne (front_ge hge), hne hge,
          Bool.false_and, Bool.false_and]

/-- The characters at the front that are the same are as many as are counted. -/
theorem takeWhile_beq (c : Char) (text : Text) : text.takeWhile (· == c) = List.replicate (countWhile (· == c) text) c :=
  List.eq_replicate_iff.mpr ⟨rfl, fun d hd => beq_iff_eq.mp (@List.mem_takeWhile_imp _ (· == c) text d hd)⟩

end Text

namespace LongBracket

variable {text rest run : Text} {level : Nat} {c : Char}

/-- The characters of a closing bracket are single bytes. -/
theorem lt_of_mem_closer (h : c ∈ closer level) : c.toNat < 0x80 := by
  simp only [closer, mark, List.mem_cons, List.mem_append, List.mem_replicate] at h
  rcases h with rfl | ⟨-, rfl⟩ | rfl | h
  · decide
  · decide
  · decide
  · cases h

/-- No closer begins in what has no closing bracket. -/
theorem find?_run (hrun : ∀ c ∈ run, c ≠ ']') (rest : Text) :
    find? (closer level) (run ++ rest) = (find? (closer level) rest).map (· + run.length) := by
  induction run with
  | nil => exact Option.map_id'.symm
  | cons c run ih =>
    obtain ⟨hc, hrun⟩ := List.forall_mem_cons.mp hrun
    have hno : ¬ (closer level).isPrefixOf (c :: (run ++ rest)) = true := by
      rw [closer, List.isPrefixOf_cons_cons, beq_false_of_ne hc.symm, Bool.false_and]
      exact Bool.false_ne_true
    rw [List.cons_append, find?, if_neg hno, ih hrun, Option.map_map]
    rfl

/-- An opener stands where a second bracket does behind the equals signs. -/
theorem isPrefixOf_opener (body : Text) : (opener (Text.countWhile (· == '=') body)).isPrefixOf ('[' :: body) =
    ((body.drop (Text.countWhile (· == '=') body)).head? == some '[') := by
  have hparts : body.takeWhile (· == '=') ++ body.drop (Text.countWhile (· == '=') body) = body :=
    (List.prefix_append_drop (List.takeWhile_prefix _)).symm
  rw [Text.takeWhile_beq] at hparts
  generalize Text.countWhile (· == '=') body = level at hparts
  generalize body.drop level = rest at hparts
  subst hparts
  rw [opener, mark, List.isPrefixOf_cons_cons, beq_self_eq_true, Bool.true_and]
  rw [Bool.eq_iff_iff, List.isPrefixOf_iff_prefix, List.prefix_append_right_inj, beq_iff_eq]
  cases rest with
  | nil => simp
  | cons c rest => simp [eq_comm]

end LongBracket

namespace Guarded

variable {α : Type} {source text rest body run : Text} {c : Char} {fuel level line count : Nat} {comment : Bool} {place : Place}

/-! ## Bodies -/

/-- What is found behind an opener: the offset of the closer, and how far that ends. -/
def bodyFound (source : Text) (comment : Bool) (line level : Nat) (rest : Text) : Except Fault (Nat × Nat) :=
  match LongBracket.find? (LongBracket.closer level) rest with
  | some count => .ok (source.size - Text.size (rest.drop count), count + (level + 2))
  | none => .error (.after rest rest.length (unclosed comment) [(toString line).toList, "<eof>".toList])

/-- The end of a text is the end of a part of it that goes so far. -/
theorem shift_after_end (h : rest.length + count = text.length) (message : Message) (arguments : List Text) :
    (Fault.after rest rest.length message arguments).shift count = .after text text.length message arguments := by
  rw [Fault.shift, Fault.after, Fault.after, List.drop_length, List.drop_length, h]

/-- What is found behind characters among which no closer begins. -/
theorem bodyFound_append (h : LongBracket.find? (LongBracket.closer level) (run ++ rest) =
    (LongBracket.find? (LongBracket.closer level) rest).map (· + run.length)) :
    bodyFound source comment line level (run ++ rest) = shifted run.length (bodyFound source comment line level rest) := by
  rw [bodyFound, bodyFound, h]
  cases LongBracket.find? (LongBracket.closer level) rest with
  | some count =>
    rw [Option.map_some]
    dsimp only
    rw [shifted, Nat.add_comm count, ← List.drop_drop, List.drop_left, Nat.add_comm run.length, Nat.add_right_comm]
  | none =>
    rw [Option.map_none]
    dsimp only
    rw [shifted, shift_after_end (show rest.length + run.length = (run ++ rest).length by rw [List.length_append, Nat.add_comm])]

/-- The characters beyond ASCII all stop a long bracket or none does. -/
theorem uniform_isStop : Text.Uniform fun c => !(isStop c) := by
  refine Text.Ascii.uniform_not fun c hc => ?_
  have hbeq {d : Char} (h : d.toNat < 0x80) : (c == d) = false := Text.ascii_beq h c hc
  rw [isStop, hbeq (by decide), Text.ascii_isLineEnd c hc]
  rfl

/-- What does not stop a long bracket is no bracket and ends no line. -/
theorem of_not_isStop (h : (!(isStop c)) = true) : c ≠ ']' ∧ Text.isLineEnd c = false := by
  rw [isStop, Bool.not_eq_true', Bool.or_eq_false_iff, beq_eq_false_iff_ne] at h
  exact h

/-- The reader looks for the closing bracket and stays where it is. -/
theorem leads_closes : Leads source (closes source level) rest ((LongBracket.closer level).isPrefixOf rest) rest := by
  refine Gives.leads fun place hplace => (gives_here place).bind ?_
  rw [hplace.latin_drop, Text.isPrefixOf_latin fun c => LongBracket.lt_of_mem_closer]
  exact gives_pure _ place

/-- What is read from where reading stands is read as it would be alone. -/
theorem Yields.behind {m : Guarded α} {result : Except Fault (α × Nat)} (h : Yields source rest m rest result)
    (hcount : text.drop count = rest) (hblames : ∀ fault, result = .error fault → fault.blamesStart = false) :
    Yields source text m rest (shifted count result) := by
  subst hcount
  exact fun start place hstart hplace => h.shift hplace hblames start place hstart hplace

/-- Within a long bracket no fault blames its start. -/
theorem blamesStart_of_bodyFound {fault : Fault} (h : bodyFound source comment line level rest = .error fault) :
    fault.blamesStart = false := by
  rw [bodyFound] at h
  split at h <;> cases h
  rfl

/-- Characters among which no closer begins change nothing about what is found behind them. -/
theorem Yields.found_behind {m : Guarded Nat}
    (hrun : LongBracket.find? (LongBracket.closer level) (run ++ rest) =
      (LongBracket.find? (LongBracket.closer level) rest).map (· + run.length))
    (h : Yields source rest m rest (bodyFound source comment line level rest)) :
    Yields source (run ++ rest) m rest (bodyFound source comment line level (run ++ rest)) := by
  rw [bodyFound_append hrun]
  exact h.behind List.drop_left fun fault => blamesStart_of_bodyFound

/-- A closing bracket has as many bytes as characters. -/
theorem size_closer (level : Nat) : Text.size (LongBracket.closer level) = level + 2 := by
  rw [← Text.length_latin, Text.latin_of_forall_lt fun c => LongBracket.lt_of_mem_closer, LongBracket.length_closer]

/-- A closer ends the body. -/
theorem yields_closer (hclose : (LongBracket.closer level).isPrefixOf (c :: rest) = true) :
    Yields source (c :: rest)
      (here >>= fun stop => advance source (level + 2) >>= fun _ => pure stop.offset) (c :: rest)
      (bodyFound source comment line level (c :: rest)) := by
  have hfound : bodyFound source comment line level (c :: rest) =
      .ok (source.size - Text.size (c :: rest), level + 2) := by
    rw [bodyFound, LongBracket.find?, if_pos hclose]
    dsimp only
    rw [List.drop_zero, Nat.zero_add]
  rw [hfound]
  obtain ⟨more, hmore⟩ := List.isPrefixOf_iff_prefix.mp hclose
  have hdrop : (c :: rest).drop (level + 2) = more := by
    rw [← hmore, ← LongBracket.length_closer level, List.drop_left]
  refine yields_here fun start place hstart hplace => ?_
  have hoffset := hplace.offset_add
  rw [show source.size - Text.size (c :: rest) = place.offset by omega]
  have hadvance := @leads_advance source more (LongBracket.closer level) _ (oneLine_closer level) (size_closer level)
  rw [hmore] at hadvance
  have hends : Yields source (c :: rest) (advance source (level + 2) >>= fun _ => pure place.offset) (c :: rest)
      (.ok (place.offset, level + 2)) := hadvance.bind_yields (yields_pure hdrop _)
  exact hends start place hstart hplace

/-- The body of a bracket is searched for the closer of its level. -/
theorem yields_bracketBody (hsmall : source.size + 1 < 2 ^ 32) (hfuel : rest.length < fuel) :
    Yields source rest (bracketBody source comment line level fuel) rest (bodyFound source comment line level rest) := by
  induction fuel generalizing rest with
  | zero => cases hfuel
  | succ fuel ih =>
    have hparts := List.takeWhile_append_dropWhile (p := fun c => !(isStop c)) (l := rest)
    have hplain : ∀ c ∈ rest.takeWhile fun c => !(isStop c), c ≠ ']' := fun c hc =>
      (of_not_isStop (List.mem_takeWhile_imp (p := fun c => !(isStop c)) hc)).1
    have hstops : ∀ c ∈ (rest.dropWhile fun c => !(isStop c)).head?, isStop c = true := fun c hc => by
      have h := List.head?_dropWhile_not (fun c => !(isStop c)) rest
      rw [Option.mem_def.mp hc] at h
      simpa using h
    have hshorter : (rest.dropWhile fun c => !(isStop c)).length < fuel + 1 :=
      Nat.lt_of_le_of_lt (List.dropWhile_suffix _).length_le hfuel
    refine (leads_skip uniform_isStop fun c h => (of_not_isStop h).2).bind_yields ?_
    generalize rest.takeWhile (fun c => !(isStop c)) = run at hparts hplain
    generalize rest.dropWhile (fun c => !(isStop c)) = behind at *
    subst hparts
    refine Yields.found_behind (LongBracket.find?_run hplain behind) (leads_peek.bind_yields ?_)
    cases behind with
    | nil => exact @yields_fail Nat source [] 0 hsmall _ _
    | cons c behind =>
      have hstop := hstops c rfl
      rw [List.head?_cons, Option.map_some]
      dsimp only
      rw [Text.front_beq (by decide)]
      by_cases hbracket : (c == ']') = true
      · obtain rfl := beq_iff_eq.mp hbracket
        rw [if_pos hbracket]
        refine leads_closes.bind_yields ?_
        by_cases hclose : (LongBracket.closer level).isPrefixOf (']' :: behind) = true
        · rw [if_pos hclose]
          exact yields_closer hclose
        · rw [if_neg hclose]
          have hrun : LongBracket.find? (LongBracket.closer level) ([']'] ++ behind) =
              (LongBracket.find? (LongBracket.closer level) behind).map (· + [']'].length) := by
            rw [List.singleton_append, LongBracket.find?, if_neg hclose]
            rfl
          exact (leads_advance_one rfl (by decide)).bind_yields
            (Yields.found_behind hrun (ih (Nat.lt_of_succ_lt_succ hshorter)))
      · rw [if_neg hbracket]
        have hend : Text.isLineEnd c = true := (Bool.or_eq_true_iff.mp hstop).resolve_left hbracket
        have hpos := Text.lineBreak_pos hend behind
        have hrun : ∀ d ∈ (c :: behind).take (Text.lineBreak (c :: behind)), d ≠ ']' := by
          rintro d hd rfl
          exact Bool.false_ne_true (Trivium.isLineEnd_of_lineBreak _ _ hd)
        have hshort : ((c :: behind).drop (Text.lineBreak (c :: behind))).length < fuel := by
          rw [List.length_drop]
          rw [List.length_cons] at hshorter ⊢
          omega
        have hbehind := Yields.found_behind (LongBracket.find?_run hrun _) (ih hshort)
        rw [List.take_append_drop] at hbehind
        exact (leads_breakLine hsmall).bind_yields hbehind

/-! ## Brackets -/

/-- The reader looks ahead for the level and stays where it is. -/
theorem leads_levelAhead (hc : c.toNat < 0x80) :
    Leads source (levelAhead source) (c :: body) (Text.countWhile (· == '=') body) (c :: body) := by
  have hequals : Text.Ascii (· == '=') := Text.ascii_beq (by decide)
  refine Gives.leads fun place hplace => (gives_here place).bind ?_
  have hcount : ((source.latin.drop (place.offset + 1)).takeWhile (· == '=')).length =
      Text.countWhile (· == '=') body := by
    rw [← List.drop_drop, hplace.latin_drop, Text.latin_cons, Text.latin_of_lt hc, List.singleton_append,
      List.drop_succ_cons, List.drop_zero, Text.takeWhile_latin hequals.uniform,
      Text.latin_of_forall_lt fun d hd => hequals.lt (List.mem_takeWhile_imp (p := (· == '=')) hd)]
    rfl
  rw [hcount]
  exact gives_pure _ place

/-- Behind the equals signs it can be seen whether a second bracket opens. -/
theorem leads_peek_opener : Leads source (peek source (Text.countWhile (· == '=') body + 1)) ('[' :: body)
    ((body.drop (Text.countWhile (· == '=') body)).head?.map Text.front) ('[' :: body) := by
  have hparts : '[' :: body.takeWhile (· == '=') ++ body.drop (Text.countWhile (· == '=') body) = '[' :: body :=
    congrArg _ (List.prefix_append_drop (List.takeWhile_prefix _)).symm
  have hascii : ∀ c ∈ '[' :: body.takeWhile (· == '='), c.toNat < 0x80 :=
    List.forall_mem_cons.mpr ⟨by decide, fun c hc =>
      (Text.ascii_beq (d := '=') (by decide)).lt (List.mem_takeWhile_imp (p := (· == '=')) hc)⟩
  have hpeek := @leads_peek_ahead source (body.drop (Text.countWhile (· == '=') body)) _ _ hascii rfl
  rwa [hparts] at hpeek

/-- What a guarded reader finds where a long bracket may begin: the offsets of the content, if there is one. -/
inductive Bracketed (source : Text) (comment : Bool) (line : Nat) (text : Text) :
    Except Fault (Option (Nat × Nat) × Nat) → Prop
  | absent (h : LongBracket.read text = .absent) : Bracketed source comment line text (.ok (none, 0))
  | unfinished (h : LongBracket.read text = .unfinished) : Bracketed source comment line text
      (.error (.after text text.length (unclosed comment) [(toString line).toList, "<eof>".toList]))
  | bracket {content : Text} {length first last : Nat} (h : LongBracket.read text = .bracket content length)
      (hslice : source.slice? first last = some content) : Bracketed source comment line text
      (.ok (some (first, last), length))

/-- An opening bracket has as many bytes as characters. -/
theorem size_opener (level : Nat) : Text.size (LongBracket.opener level) = level + 2 := by
  have hascii : ∀ c ∈ LongBracket.opener level, c.toNat < 0x80 := by
    intro c h
    simp only [LongBracket.opener, LongBracket.mark, List.mem_cons, List.mem_append, List.mem_replicate] at h
    rcases h with rfl | ⟨-, rfl⟩ | rfl | h
    · decide
    · decide
    · decide
    · cases h
  rw [← Text.length_latin, Text.latin_of_forall_lt hascii, LongBracket.length_opener]

/-- What stands at the end of a source is found there by how long the source and the rest are. -/
theorem slice?_of_suffix {a : Text} (h : a ++ rest <:+ source) :
    source.slice? (source.size - Text.size (a ++ rest)) (source.size - Text.size rest) = some a := by
  obtain ⟨before, rfl⟩ := h
  have hslice := Text.slice?_of_parts before a rest
  rw [Text.size_append, Text.size_append]
  rwa [Nat.add_sub_cancel, ← Nat.add_assoc, Nat.add_sub_cancel]

/-- Behind an opener the body follows, without a line break at its front. -/
theorem yields_opened (hsmall : source.size + 1 < 2 ^ 32) (hsuffix : LongBracket.opener level ++ rest <:+ source) :
    ∃ result, Bracketed source comment line (LongBracket.opener level ++ rest) result ∧
      Yields source (LongBracket.opener level ++ rest) (do
        advance source (level + 2)
        let _ ← breakLine source
        let start ← here
        let stop ← bracketBody source comment line level (turns source)
        pure (some (start.offset, stop))) (LongBracket.opener level ++ rest) result := by
  obtain ⟨body, hbody⟩ : ∃ body, rest.drop (Text.lineBreak rest) = body := ⟨_, rfl⟩
  have hdrop : (LongBracket.opener level ++ rest).drop (level + 2 + Text.lineBreak rest) = body := by
    rw [← List.drop_drop, List.drop_left' (LongBracket.length_opener level), hbody]
  have hread := LongBracket.read_opener level rest
  rw [hbody] at hread
  refine ⟨(shifted (level + 2 + Text.lineBreak rest) (bodyFound source comment line level body)).map
    fun found => (some (source.size - Text.size body, found.1), found.2), ?_, ?_⟩
  · have hsuffix' : body <:+ source := hdrop ▸ (List.drop_suffix _ _).trans hsuffix
    rw [bodyFound]
    cases hfind : LongBracket.find? (LongBracket.closer level) body with
    | none =>
      rw [hfind] at hread
      have hlength : body.length + (level + 2 + Text.lineBreak rest) = (LongBracket.opener level ++ rest).length := by
        have h := congrArg List.length hdrop
        have hbreak := Text.lineBreak_le_length rest
        rw [List.length_drop, List.length_append, LongBracket.length_opener] at h
        rw [List.length_append, LongBracket.length_opener]
        omega
      dsimp only
      rw [shifted, shift_after_end hlength]
      exact .unfinished hread
    | some count =>
      rw [hfind] at hread
      have hslice := @slice?_of_suffix source (body.drop count) (body.take count)
        (by rwa [List.take_append_drop])
      rw [List.take_append_drop] at hslice
      have hbracketed := @Bracketed.bracket source comment line _ _ _ _ _ hread hslice
      rwa [Nat.add_assoc (level + 2 + Text.lineBreak rest), Nat.add_comm (level + 2 + Text.lineBreak rest)] at hbracketed
  · refine (leads_advance (oneLine_opener level) (size_opener level)).bind_yields
      ((leads_breakLine hsmall).bind_yields (yields_here fun first start hfirst hstart => ?_))
    rw [hbody] at hstart
    have hoffset := hstart.offset_add
    have hfound := @yields_bracketBody source body (turns source) level line comment hsmall (lt_turns (by omega))
    have hmap := (hfound.behind hdrop fun fault => blamesStart_of_bodyFound).map fun stop => some (start.offset, stop)
    rw [show start.offset = source.size - Text.size body by omega] at hmap ⊢
    exact hmap first start hfirst hstart

/-- A long bracket is read as by a reader of characters. -/
theorem yields_longBracket (hsmall : source.size + 1 < 2 ^ 32) (hplace : place.Marks source ('[' :: body)) :
    ∃ result, Bracketed source comment place.line ('[' :: body) result ∧
      Yields source ('[' :: body) (longBracket source comment) ('[' :: body) result := by
  have hopener := LongBracket.isPrefixOf_opener body
  have hbegins {result : Except Fault (Option (Nat × Nat) × Nat)}
      (h : Yields source ('[' :: body) (if (body.drop (Text.countWhile (· == '=') body)).head? != some '[' then pure none
        else do
          advance source (Text.countWhile (· == '=') body + 2)
          let _ ← breakLine source
          let start ← here
          let stop ← bracketBody source comment place.line (Text.countWhile (· == '=') body) (turns source)
          pure (some (start.offset, stop))) ('[' :: body) result) :
      Yields source ('[' :: body) (longBracket source comment) ('[' :: body) result := by
    refine yields_here fun start first hstart hfirst => ?_
    obtain rfl := hfirst.unique hplace
    refine ((leads_levelAhead (by decide)).bind_yields (leads_peek_opener.bind_yields ?_)) start first hstart hfirst
    rwa [Text.map_front_bne (by decide)]
  by_cases hsecond : ((body.drop (Text.countWhile (· == '=') body)).head? == some '[') = true
  · rw [hsecond, List.isPrefixOf_iff_prefix] at hopener
    obtain ⟨rest, hrest⟩ := hopener
    have hsuffix : '[' :: body <:+ source := hplace.suffix
    rw [← hrest] at hsuffix
    obtain ⟨result, hresult, hyields⟩ := @yields_opened source rest _ place.line comment hsmall hsuffix
    rw [hrest] at hresult hyields
    refine ⟨result, hresult, hbegins ?_⟩
    rw [bne, hsecond]
    exact hyields
  · have hread : LongBracket.read ('[' :: body) = .absent := by
      simp only [LongBracket.read, List.drop_succ_cons, List.drop_zero]
      rw [hopener, if_neg hsecond]
    refine ⟨_, .absent hread, hbegins ?_⟩
    rw [Bool.not_eq_true] at hsecond
    rw [bne, hsecond]
    exact yields_pure (by rfl) none

/-- A long string is read as by a reader of characters. -/
theorem yields_longString (hsmall : source.size + 1 < 2 ^ 32) (hplace : place.Marks source ('[' :: body)) :
    Yields source ('[' :: body) (longString source) ('[' :: body) (Lexeme.longString place.line ('[' :: body)) := by
  obtain ⟨result, hresult, hyields⟩ := @yields_longBracket source body false place hsmall hplace
  refine yields_here fun start first hstart hfirst => ?_
  have hoffset := hfirst.offset_add
  rw [Lexeme.longString]
  suffices h : Yields source ('[' :: body) (longBracket source false >>= fun found => _) ('[' :: body) _ from
    h start first hstart hfirst
  cases hresult with
  | absent h =>
    rw [h]
    have hskip := @leads_skip source body (· == '=') (Text.ascii_beq (by decide)).uniform (Text.not_isLineEnd rfl rfl)
    have hquoted := @yields_quoted TokenValue source ('[' :: body) first.offset (Text.countWhile (· == '=') body + 1) hsmall
      hoffset .invalidLongBracket
    rw [List.drop_succ_cons, Text.drop_countWhile] at hquoted
    exact hyields.bind ((leads_advance_one rfl (by decide)).bind_yields (hskip.bind_yields hquoted))
  | unfinished h =>
    rw [h]
    exact hyields.ends
  | bracket h hslice =>
    rw [h]
    exact hyields.bind ((leads_given hslice).bind_yields (yields_pure rfl _))

end Guarded

end LuaSyntax
