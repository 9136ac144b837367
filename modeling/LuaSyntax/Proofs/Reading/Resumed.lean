import LuaSyntax.Proofs.Reading.Deliveries

/-!
# Reading on from a checkpoint

A token that ends before the end of what has arrived is finished: whatever more arrives, a lexer at
the same place reads the same token, collects the same comments and stands at the same place then.
No decision of a reader looks past the character behind its token.

So the place behind a finished token is a checkpoint. What a lexer reads that goes on from there in
the longer source is what is left of an uninterrupted reading of it, up to the same first error.
-/

namespace LuaSyntax.Lexer

variable {options : ParseOptions} {source text : Text} {lexer after last : Lexer} {token : Token}
  {tokens : List Token} {deliveries : List Delivery}

/-! ## The queue of comments -/

/-- A lexer that has collected some comments before. -/
def preceded (queue : List Comment) (lexer : Lexer) : Lexer :=
  { lexer with comments := queue ++ lexer.comments }

/-- A lexer whose comments were taken out is itself with them put back. -/
theorem preceded_drain (lexer : Lexer) : lexer.drain.2.preceded lexer.comments = lexer := by
  rw [preceded, drain, List.append_nil]

/-- What is read does not depend on the comments that were collected before. -/
theorem next_preceded (queue : List Comment) (lexer : Lexer) :
    (lexer.preceded queue).next = (lexer.next.1, lexer.next.2.preceded queue) := by
  cases hrest : lexer.rest with
  | none => simp only [next, preceded, hrest, misplaced]
  | some text =>
    simp only [next, preceded, hrest]
    split
    · rw [List.append_assoc]
    · split <;> rw [List.append_assoc]

/-- A lexer whose comments were taken reads the same token and collects the same comments. -/
theorem next_drain (h : lexer.next = (.ok token, after)) :
    ∃ fresh, lexer.drain.2.next = (.ok token, fresh) ∧ fresh.place = after.place ∧
      after.comments = lexer.comments ++ fresh.comments ∧ fresh.drain.2 = after.drain.2 := by
  have hnext := next_preceded lexer.comments lexer.drain.2
  rw [preceded_drain, h] at hnext
  obtain ⟨htoken, rfl⟩ := Prod.mk.inj hnext
  exact ⟨lexer.drain.2.next.2, Prod.ext htoken.symm rfl, rfl, rfl, rfl⟩

/-! ## One token after the other -/

/-- A lexer that is asked for one token after the other gives some tokens and stands like another
then. The comments before them stay in its queue. -/
inductive Gives : Lexer → List Token → Lexer → Prop where
  | none (lexer : Lexer) : Gives lexer [] lexer
  | one {lexer after last : Lexer} {token : Token} {tokens : List Token} :
      lexer.next = (.ok token, after) → Gives after tokens last → Gives lexer (token :: tokens) last

/-- Behind any token, be it the end of the input, a lexer stands between two characters. -/
theorem Sited.after_next (h : lexer.Sited text) (hn : lexer.next = (.ok token, after)) :
    ∃ rest, after.Sited rest := by
  obtain ⟨-, _, length, -, -, rfl⟩ := (next_eq_ok h.rest_eq).mp hn
  exact ⟨_, h.behind length⟩

/-- A lexer that gives tokens does not go back, and stays in its source. -/
theorem Gives.sited (h : Gives lexer tokens last) (hl : lexer.Sited text) :
    (∃ rest, last.Sited rest) ∧ last.options = lexer.options ∧ last.source = lexer.source ∧
      lexer.place.offset ≤ last.place.offset := by
  induction h generalizing text with
  | none => exact ⟨⟨text, hl⟩, rfl, rfl, Nat.le_refl _⟩
  | one hn _ ih =>
    obtain ⟨rest, hrest⟩ := hl.after_next hn
    obtain ⟨hlast, hoptions, hsource, hle⟩ := ih hrest
    obtain ⟨hstart, hstop⟩ := offset_le_of_next hl.rest_eq hn
    rw [place_next hl.rest_eq hn] at hle
    exact ⟨hlast, hoptions.trans (options_next hl.rest_eq hn),
      hsource.trans (source_next hl.rest_eq hn), by omega⟩

/-- A token that ends before the end of the source is not the end of the input. -/
theorem Sited.isEnd_of_stop_lt (h : lexer.Sited text) (hn : lexer.next = (.ok token, after))
    (hstop : token.stop.offset < Text.size lexer.source) : token.isEnd = false := by
  rcases length_of_next h.rest_eq hn with ⟨-, hbehind⟩ | ⟨hend, -⟩
  · have hoffset := Trivia.offset_stop lexer.options lexer.source lexer.place text
    have hsize := h.size_source
    obtain ⟨-, _, _, -, rfl, -⟩ := (next_eq_ok h.rest_eq).mp hn
    rw [← trivia, hbehind, Text.size_nil] at hoffset
    rw [tokenOf, Place.offset_after] at hstop
    omega
  · exact hend

/-- Tokens before a place that is before the end of the source are given in a longer source too, and
none of them is the end. -/
theorem Gives.grow (h : Gives lexer tokens last) (hl : lexer.Sited text)
    (hlast : last.place.offset < Text.size lexer.source) (more : Text) :
    Gives (lexer.grow more) tokens (last.grow more) ∧ ∀ token ∈ tokens, token.isEnd = false := by
  induction h generalizing text with
  | none => exact ⟨.none _, List.forall_mem_nil _⟩
  | one hn hgives ih =>
    obtain ⟨rest, hrest⟩ := hl.after_next hn
    obtain ⟨-, -, -, hle⟩ := hgives.sited hrest
    rw [place_next hl.rest_eq hn] at hle
    have hstop := Nat.lt_of_le_of_lt hle hlast
    have hend := hl.isEnd_of_stop_lt hn hstop
    obtain ⟨hgrown, hothers⟩ := ih hrest (by rwa [source_next hl.rest_eq hn])
    exact ⟨.one (next_grow hl hn hend hstop) hgrown, List.forall_mem_cons.mpr ⟨hend, hothers⟩⟩

/-- Tokens that are given are read as deliveries, each with the comments before it. -/
theorem Gives.reads (h : Gives lexer tokens last) (hends : ∀ token ∈ tokens, token.isEnd = false) :
    ∃ deliveries, Reads lexer.drain.2 deliveries last.drain.2 ∧
      deliveries.map Delivery.token = tokens ∧
      last.comments = lexer.comments ++ deliveries.flatMap Delivery.comments := by
  induction h with
  | none lexer => exact ⟨[], .none _, rfl, (List.append_nil _).symm⟩
  | one hn _ ih =>
    obtain ⟨hend, hothers⟩ := List.forall_mem_cons.mp hends
    obtain ⟨fresh, hfresh, -, hcomments, hdrain⟩ := next_drain hn
    obtain ⟨deliveries, hreads, rfl, hlast⟩ := ih hothers
    rw [← hdrain] at hreads
    exact ⟨_, .one hfresh hend hreads, rfl, by
      rw [hlast, hcomments, List.flatMap_cons, List.append_assoc]⟩

/-- A lexer that gives tokens gives one more. -/
theorem Gives.append_one (h : Gives lexer tokens last) (hn : last.next = (.ok token, after)) :
    Gives lexer (tokens ++ [token]) after := by
  induction h with
  | none => exact .one hn (.none _)
  | one hfirst _ ih => exact .one hfirst (ih hn)

/-! ## In a longer source -/

/-- A lonely hash is a token that ends where the source ends. -/
theorem Gives.of_hash (h : Gives lexer tokens last) (hl : lexer.Sited ['#']) (hne : tokens ≠ []) :
    Text.size lexer.source ≤ last.place.offset := by
  cases h with
  | none => exact absurd rfl hne
  | one hn hgives =>
    obtain ⟨rest, hrest⟩ := hl.after_next hn
    obtain ⟨-, -, -, hle⟩ := hgives.sited hrest
    obtain ⟨-, _, _, hr, -, rfl⟩ := (next_eq_ok hl.rest_eq).mp hn
    cases hr
    refine Nat.le_trans (Nat.le_of_eq ?_) hle
    rw [behind, Place.offset_after, ← hl.size_source]
    rfl

/-- A lexer that comes to a token that ends before the end of the source begins in a longer source
where it begins in this one. -/
theorem start_append_of_gives (h : Gives (start options source) tokens last) (hne : tokens ≠ [])
    (hlast : last.place.offset < Text.size source) (more : Text) :
    start options (source ++ more) = (start options source).grow more := by
  obtain ⟨text, hsited, -⟩ := sited_start options source
  have hsize := hsited.size_source
  obtain ⟨-, -, -, hle⟩ := h.sited hsited
  rw [source_start] at hsize
  refine start_append hsited ?_ ?_
  · rintro rfl
    rw [Text.size_nil] at hsize
    omega
  · rintro rfl
    have := h.of_hash hsited hne
    rw [source_start] at this
    omega

/-- The lexer at the start has no comments to take out. -/
theorem drain_start (options : ParseOptions) (source : Text) :
    (start options source).drain.2 = start options source := by
  rw [drain, start, skipShebang]
  split <;> rfl

/-- A lexer that is told to go on in a longer source where another stands is that lexer with more
source behind it and without its comments. -/
theorem Sited.resume_longer (h : lexer.Sited text) (more : Text) :
    resume lexer.options (lexer.source ++ more) lexer.place = (lexer.grow more).drain.2 :=
  ((h.grow more).drain.eq_resume rfl).symm

/-- What is read of a longer source is what was given of this one, and then what is read from the
checkpoint on. -/
theorem feed_append_of_gives (h : Gives (start options source) tokens last) (hne : tokens ≠ [])
    (hlast : last.place.offset < Text.size source) (more : Text) :
    Gives (start options (source ++ more)) tokens (last.grow more) ∧
    ∃ deliveries, deliveries.map Delivery.token = tokens ∧
      deliveries.flatMap Delivery.comments = last.comments ∧
      feed options (source ++ more) =
        { (resume options (source ++ more) last.place).reading with
          deliveries := deliveries ++
            (resume options (source ++ more) last.place).reading.deliveries } := by
  obtain ⟨text, hsited, -⟩ := sited_start options source
  obtain ⟨⟨rest, hrest⟩, hoptions, hsource, -⟩ := h.sited hsited
  obtain ⟨hgrown, hends⟩ := h.grow hsited (by rwa [source_start]) more
  rw [← start_append_of_gives h hne hlast more] at hgrown
  obtain ⟨deliveries, hreads, htokens, hcomments⟩ := hgrown.reads hends
  obtain ⟨longer, hlonger, -⟩ := sited_start options (source ++ more)
  have hresume := hrest.resume_longer more
  rw [hoptions, hsource, options_start, source_start] at hresume
  have hempty : (start options (source ++ more)).comments = [] := by
    rw [← drain_start]
    rfl
  rw [hempty, List.nil_append] at hcomments
  refine ⟨hgrown, deliveries, htokens, hcomments.symm, ?_⟩
  rw [feed_eq_reading, ← drain_start, hreads.reading_eq hlonger.drain, hresume]

/-- A finished token cannot change. If the lexer that some tokens of a source have led to reads a
token that ends before the end of the source, then with more behind the source it reads the same
token from the same place, with the same comments in its queue and up to the same place. And a
lexer that is told to go on at that place reads exactly what an uninterrupted reading of the longer
source gives behind that token: the same deliveries, up to the same end or the same first error. -/
theorem finished_token_kept (h : Gives (start options source) tokens lexer)
    (hn : lexer.next = (.ok token, after)) (hstop : token.stop.offset < Text.size source)
    (more : Text) :
    (lexer.grow more).next = (.ok token, after.grow more) ∧
    (∃ resumed, (resume options (source ++ more) lexer.place).next = (.ok token, resumed) ∧
      resumed.place = after.place ∧ after.comments = lexer.comments ++ resumed.comments) ∧
    Gives (start options (source ++ more)) (tokens ++ [token]) (after.grow more) ∧
    ∃ deliveries, deliveries.map Delivery.token = tokens ++ [token] ∧
      deliveries.flatMap Delivery.comments = after.comments ∧
      feed options (source ++ more) =
        { (resume options (source ++ more) after.place).reading with
          deliveries := deliveries ++
            (resume options (source ++ more) after.place).reading.deliveries } := by
  obtain ⟨text, hsited, -⟩ := sited_start options source
  obtain ⟨⟨rest, hrest⟩, hoptions, hsource, -⟩ := h.sited hsited
  rw [options_start] at hoptions
  rw [source_start] at hsource
  have hlast : after.place.offset < Text.size source := by rwa [place_next hrest.rest_eq hn]
  rw [← hsource] at hstop
  have hnext : (lexer.grow more).next = (.ok token, after.grow more) :=
    next_grow hrest hn (hrest.isEnd_of_stop_lt hn hstop) hstop
  have hresume := hrest.resume_longer more
  rw [hoptions, hsource] at hresume
  obtain ⟨resumed, hresumed, hplace, hcomments, -⟩ := next_drain hnext
  rw [← hresume] at hresumed
  exact ⟨hnext, ⟨resumed, hresumed, hplace, hcomments⟩,
    feed_append_of_gives (h.append_one hn) (by simp) hlast more⟩

/-- The word at the front of the second line is finished: a lexer that is told to go on before it
reads it in the longer source, and one that is told to go on behind it reads the long word. -/
theorem finished_token_kept_word :
    (∃ token resumed, token.value = .identifier "x" ∧ resumed.comments.length = 1 ∧
      (resume {} "f --c\nx yz".toList ⟨1, 1, 0⟩).next = (.ok token, resumed)) ∧
    ∃ deliveries, deliveries.length = 2 ∧
      (feed {} "f --c\nx yz".toList).deliveries =
        deliveries ++ (resume {} "f --c\nx yz".toList ⟨7, 2, 6⟩).reading.deliveries := by
  have h : Gives (start {} "f --c\nx y".toList) [_] _ := .one rfl (.none _)
  obtain ⟨-, ⟨resumed, hresumed, -, hqueue⟩, -, deliveries, htokens, -, hfeed⟩ :=
    finished_token_kept h rfl (by decide) "z".toList
  refine ⟨⟨_, resumed, rfl, congrArg List.length hqueue.symm, hresumed⟩, deliveries, ?_,
    congrArg Feed.deliveries hfeed⟩
  rw [← List.length_map Delivery.token, htokens]
  rfl

end LuaSyntax.Lexer
