import LuaSyntax.Proofs.Reading.Lexers

/-!
# Reading token by token

`Lexer.Reads` says that a lexer comes from one place to another and which deliveries it reads on the
way, with no bound on their number. `Lexer.reading` is everything that a lexer reads up to the end or
the first error. The bound that the definition of it has plays no role: a token takes at least one
character, so there is always enough of it left.
-/

namespace LuaSyntax.Lexer

variable {lexer after last : Lexer} {text : Text} {token : Token} {error : ParseError}
  {deliveries others : List Delivery}

/-- A lexer that reads some deliveries stands like another then. -/
inductive Reads : Lexer → List Delivery → Lexer → Prop where
  | none (lexer : Lexer) : Reads lexer [] lexer
  | one {lexer after last : Lexer} {token : Token} {deliveries : List Delivery} :
      lexer.next = (.ok token, after) → token.isEnd = false →
      Reads after.drain.2 deliveries last →
      Reads lexer (⟨token, after.comments⟩ :: deliveries) last

/-- Deliveries may be put together. -/
theorem Reads.append (h : Reads lexer deliveries after) (hothers : Reads after others last) :
    Reads lexer (deliveries ++ others) last := by
  induction h with
  | none => exact hothers
  | one hnext hend _ ih => exact .one hnext hend (ih hothers)

/-- None of the deliveries before the end is the end. -/
theorem Reads.isEnd (h : Reads lexer deliveries last) :
    ∀ delivery ∈ deliveries, delivery.token.isEnd = false := by
  induction h with
  | none => simp
  | one _ hend _ ih =>
    rintro delivery (_ | ⟨_, hmem⟩)
    · exact hend
    · exact ih delivery hmem

/-- A lexer that stands in a text does so when its comments are taken out. -/
theorem Sited.drain (h : lexer.Sited text) : lexer.drain.2.Sited text := ⟨h.rest_eq, h.source_eq⟩

/-- Each delivery takes at least one character. -/
theorem Reads.sited (h : Reads lexer deliveries last) (hl : lexer.Sited text) :
    ∃ rest, last.Sited rest ∧ rest.length + deliveries.length ≤ text.length := by
  induction h generalizing text with
  | none => exact ⟨text, hl, Nat.le_refl _⟩
  | one hnext hend _ ih =>
    obtain ⟨rest, hrest, hlt⟩ := hl.next hnext hend
    obtain ⟨rest', hrest', hle⟩ := ih hrest.drain
    exact ⟨rest', hrest', by rw [List.length_cons]; omega⟩

/-- What every token preserves holds of the lexer that a delivery was read by. -/
theorem Reads.holds {known : Lexer → Prop} (h : Reads lexer deliveries last) (hl : known lexer)
    (hnext : ∀ {lexer after : Lexer} {token : Token}, known lexer → lexer.next = (.ok token, after) →
      token.isEnd = false → known after.drain.2) :
    known last ∧ ∀ delivery ∈ deliveries, ∃ lexer after, known lexer ∧
      lexer.next = (.ok delivery.token, after) ∧ after.comments = delivery.comments := by
  induction h with
  | none => exact ⟨hl, List.forall_mem_nil _⟩
  | @one lexer after _ token _ hn hend _ ih =>
    obtain ⟨hlast, hothers⟩ := ih (hnext hl hn hend)
    exact ⟨hlast, List.forall_mem_cons.mpr ⟨⟨lexer, after, hl, hn, rfl⟩, hothers⟩⟩

/-- Deliveries are read in the order in which they stand, all between the two places of the lexer. -/
theorem Reads.sorted (h : Reads lexer deliveries last) (hl : lexer.Sited text) :
    lexer.place.offset ≤ last.place.offset ∧
      (∀ delivery ∈ deliveries, lexer.place.offset ≤ delivery.token.start.offset ∧
        delivery.token.start.offset ≤ last.place.offset) ∧
      deliveries.Pairwise fun a b => a.token.start.offset ≤ b.token.start.offset := by
  induction h generalizing text with
  | none => exact ⟨Nat.le_refl _, List.forall_mem_nil _, .nil⟩
  | @one lexer after last token deliveries hn hend _ ih =>
    obtain ⟨rest, hrest, -⟩ := hl.next hn hend
    obtain ⟨hle, hothers, hsorted⟩ := ih hrest.drain
    obtain ⟨hstart, hstop⟩ := offset_le_of_next hl.rest_eq hn
    have hplace : after.place.offset = token.stop.offset :=
      congrArg Place.offset (place_next hl.rest_eq hn)
    change after.place.offset ≤ _ at hle
    have hafter : token.start.offset ≤ after.place.offset := by omega
    have hbefore : token.start.offset ≤ last.place.offset := hafter.trans hle
    refine ⟨by omega, List.forall_mem_cons.mpr ⟨⟨hstart, hbefore⟩, fun delivery hmem => ?_⟩,
      List.pairwise_cons.mpr ⟨fun delivery hmem => ?_, hsorted⟩⟩
    · have hlater : after.place.offset ≤ delivery.token.start.offset := (hothers delivery hmem).1
      exact ⟨by omega, (hothers delivery hmem).2⟩
    · have hlater : after.place.offset ≤ delivery.token.start.offset := (hothers delivery hmem).1
      exact hafter.trans hlater

/-! ## All that is left -/

/-- With more fuel than there are characters left, the amount of fuel does not matter. -/
theorem readAll_congr {fuel fuel' : Nat} (h : lexer.Sited text) (hl : text.length < fuel)
    (hl' : text.length < fuel') : readAll fuel lexer = readAll fuel' lexer := by
  induction fuel generalizing fuel' lexer text with
  | zero => cases hl
  | succ fuel ih =>
    cases fuel' with
    | zero => cases hl'
    | succ fuel' =>
      rw [readAll, readAll]
      match hn : lexer.next with
      | (.error error, after) => rfl
      | (.ok token, after) =>
        cases hend : token.isEnd with
        | true => simp [hend]
        | false =>
          obtain ⟨rest, hrest, hlt⟩ := h.next hn hend
          have hsame := ih hrest.drain (by omega) (show rest.length < fuel' by omega)
          simp only [hend, Bool.false_eq_true, if_false, hsame]

/-- All that a lexer reads up to the end of its source or the first error. -/
def reading (lexer : Lexer) : Feed := readAll ((lexer.rest.getD []).length + 1) lexer

/-- With enough fuel the whole reading is done. -/
theorem Sited.readAll_eq {fuel : Nat} (h : lexer.Sited text) (hl : text.length < fuel) :
    readAll fuel lexer = lexer.reading := by
  rw [reading, h.rest_eq]
  exact readAll_congr h hl (Nat.lt_succ_self _)

/-- A reading ends with the first error. -/
theorem reading_of_error (h : lexer.next = (.error error, after)) :
    lexer.reading = ⟨[], .error error⟩ := by
  rw [reading, readAll, h]

/-- A reading ends with the token of the end. -/
theorem reading_of_end (h : lexer.next = (.ok token, after)) (hend : token.isEnd = true) :
    lexer.reading = ⟨[], .ok ⟨token, after.comments⟩⟩ := by
  rw [reading, readAll, h]
  simp [hend, Lexer.drain]

/-- A reading goes on behind a token that is not the end. -/
theorem Sited.reading_of_token (h : lexer.Sited text) (hn : lexer.next = (.ok token, after))
    (hend : token.isEnd = false) :
    lexer.reading = { after.drain.2.reading with
      deliveries := ⟨token, after.comments⟩ :: after.drain.2.reading.deliveries } := by
  obtain ⟨rest, hrest, hlt⟩ := h.next hn hend
  rw [reading, readAll, hn, h.rest_eq]
  simp only [Option.getD_some, hend, Bool.false_eq_true, if_false, hrest.drain.readAll_eq hlt]
  rfl

/-- A token that the source ends with is the last one. -/
theorem Sited.reading_of_last (h : lexer.Sited text) (hn : lexer.next = (.ok token, after))
    (hend : token.isEnd = false) (hafter : after.Sited []) :
    ∃ last, last.token.isEnd = true ∧
      lexer.reading = ⟨[⟨token, after.comments⟩], .ok last⟩ := by
  obtain ⟨ending, later, hnext, hlast⟩ := hafter.drain.next_nil
  refine ⟨⟨ending, later.comments⟩, hlast, ?_⟩
  rw [h.reading_of_token hn hend, reading_of_end hnext hlast]

/-- What is read from a place begins with what is read up to a later one. -/
theorem Reads.reading_eq (h : Reads lexer deliveries last) (hl : lexer.Sited text) :
    lexer.reading =
      { last.reading with deliveries := deliveries ++ last.reading.deliveries } := by
  induction h generalizing text with
  | none => rfl
  | one hnext hend _ ih =>
    obtain ⟨rest, hrest, -⟩ := hl.next hnext hend
    rw [hl.reading_of_token hnext hend, ih hrest.drain]
    rfl

/-- What is read up to the end or the first error. -/
theorem Sited.reads_reading (h : lexer.Sited text) :
    ∃ last, Reads lexer lexer.reading.deliveries last ∧
      ((∃ error after, last.next = (.error error, after) ∧ lexer.reading.ending = .error error) ∨
        ∃ token after, last.next = (.ok token, after) ∧ token.isEnd = true ∧
          lexer.reading.ending = .ok ⟨token, after.comments⟩) := by
  induction hn : text.length using Nat.strong_induction_on generalizing lexer text with
  | h length ih =>
    match hnext : lexer.next with
    | (.error error, after) =>
      rw [reading_of_error hnext]
      exact ⟨lexer, .none lexer, .inl ⟨error, after, hnext, rfl⟩⟩
    | (.ok token, after) =>
      cases hend : token.isEnd with
      | true =>
        rw [reading_of_end hnext hend]
        exact ⟨lexer, .none lexer, .inr ⟨token, after, hnext, hend, rfl⟩⟩
      | false =>
        obtain ⟨rest, hrest, hlt⟩ := h.next hnext hend
        obtain ⟨last, hreads, hending⟩ := ih rest.length (by omega) hrest.drain rfl
        rw [h.reading_of_token hnext hend]
        exact ⟨last, .one hnext hend hreads, hending⟩

/-- The feed of a source is all that is read from its beginning. -/
theorem feed_eq_reading (options : ParseOptions) (source : Text) :
    feed options source = (start options source).reading := by
  obtain ⟨text, h, hl⟩ := sited_start options source
  exact h.readAll_eq (Nat.lt_succ_of_le hl)

end LuaSyntax.Lexer
