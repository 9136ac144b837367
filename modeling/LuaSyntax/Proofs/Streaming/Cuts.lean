import LuaSyntax.Proofs.Streaming.Answers

/-!
# However an input is cut

What a stream keeps after a piece of input, and what it answers to the piece, depends only on all of the
input so far. Nothing is kept that ends where the input ends, whatever the pieces were, and reading goes
on until nothing more can be kept. So two streams that have come to the same text have read equally far,
and have stopped at the same token or at the same error.
-/

namespace LuaSyntax

namespace Lexer

variable {lexer after last last' : Lexer} {deliveries others : List Delivery} {token : Token}

/-- A lexer that has read a token stands behind it. -/
theorem place_of_next (h : lexer.next = (.ok token, after)) : after.place = token.stop := by
  cases hrest : lexer.rest with
  | none =>
    simp only [next, hrest] at h
    cases h
  | some text => exact place_next hrest h

/-- Of two readings from one place, one is the beginning of the other. -/
theorem Reads.comparable (h : Reads lexer deliveries last) (h' : Reads lexer others last') :
    (∃ more, others = deliveries ++ more ∧ Reads last more last') ∨
      ∃ more, deliveries = others ++ more ∧ Reads last' more last := by
  induction h generalizing others with
  | none lexer => exact .inl ⟨others, rfl, h'⟩
  | @one lexer after last token deliveries hnext hend hrest ih =>
    cases h' with
    | none => exact .inr ⟨_, rfl, .one hnext hend hrest⟩
    | one hnext' _ hrest' =>
      obtain ⟨htoken, hafter⟩ := Prod.mk.inj (hnext.symm.trans hnext')
      obtain rfl := Except.ok.inj htoken
      obtain rfl := hafter
      exact (ih hrest').imp (fun ⟨more, heq, hmore⟩ => ⟨more, congrArg _ heq, hmore⟩)
        fun ⟨more, heq, hmore⟩ => ⟨more, congrArg _ heq, hmore⟩

end Lexer

namespace Stream

variable {stream stream' : Stream} {deliveries deliveries' : List Delivery} {token : Token}
  {after : Lexer} {text : Text}

/-! ## Tokens that are not kept too early -/

/-- A stream that keeps only tokens with something of the source behind them, and stands behind the last
of those. -/
structure Trim (stream : Stream) : Prop where
  ended : ∀ token ∈ stream.tokens, token.isEnd = false ∧ token.stop.offset < Text.size stream.source
  checkpoint_eq : stream.checkpoint = (stream.tokens.getLast?.map Token.stop).getD .start

/-- A new stream is trim. -/
theorem trim_new (options : ParseOptions) : Trim { options } := ⟨List.forall_mem_nil _, rfl⟩

/-- A trim stream stays so when its text grows. -/
theorem Trim.extend (h : stream.Trim) (more : Text) : (stream.extend more).Trim where
  ended token hmem := by
    obtain ⟨hend, hlt⟩ := h.ended token hmem
    refine ⟨hend, ?_⟩
    rw [Stream.extend, Text.size_append]
    exact Nat.lt_add_right _ hlt
  checkpoint_eq := h.checkpoint_eq

/-- A trim stream stays so when it keeps a token that may not grow. -/
theorem Trim.keep (h : stream.Trim) {lexer : Lexer} (hn : lexer.next = (.ok token, after))
    (hgrow : stream.mayGrow token = false) : (stream.keep token after).Trim where
  ended := by
    obtain ⟨hend, hstop⟩ := Bool.or_eq_false_iff.mp hgrow
    rw [decide_eq_false_iff_not, Nat.not_le] at hstop
    exact List.forall_mem_append.mpr ⟨h.ended, List.forall_mem_singleton.mpr ⟨hend, hstop⟩⟩
  checkpoint_eq := by
    show after.place = ((stream.tokens ++ [token]).getLast?.map Token.stop).getD .start
    rw [List.getLast?_concat, Lexer.place_of_next hn]
    rfl

/-- A trim stream stays so when it reads what is stable. -/
theorem Trim.readStable (h : stream.Trim) (fuel : Nat) (lexer : Lexer) :
    (readStable fuel lexer stream).2.Trim := by
  induction fuel generalizing stream lexer with
  | zero => exact h
  | succ fuel ih =>
    rw [Stream.readStable]
    split
    · next token after hn =>
      cases hgrow : stream.mayGrow token with
      | true => exact h
      | false => exact ih (h.keep hn hgrow) after.drain.2
    · exact h

/-- A trim stream stays so when it is written to. -/
theorem Trim.write (h : stream.Trim) (text : Text) : (stream.write text).2.Trim := by
  have hread := (h.extend text).readStable (stream.extend text).bound (stream.extend text).lexer
  cases hresult : Stream.readStable (stream.extend text).bound (stream.extend text).lexer
    (stream.extend text) with
  | mk result stream' =>
    rw [hresult] at hread
    cases result with
    | ok => rwa [write_of_ok hresult]
    | error => rwa [write_of_error hresult]

/-- A stream is trim whatever is fed to it. -/
theorem trim_fed (options : ParseOptions) (pieces : List Text) : (fed options pieces).Trim := by
  induction pieces using List.reverseRecOn with
  | nil => exact trim_new options
  | append_singleton pieces text ih =>
    rw [fed, List.foldl_append]
    exact ih.write text

/-! ## Where reading has come to -/

/-- A stream that can keep nothing more of its source. -/
def Exhausted (stream : Stream) : Prop :=
  ∀ token after, stream.lexer.next = (.ok token, after) → stream.mayGrow token = true

/-- A stream that has stopped is exhausted. -/
theorem Stopped.exhausted {result : Except ParseError Unit} (h : Stopped stream result) :
    stream.Exhausted := by
  intro token after hnext
  cases h with
  | waiting hn hgrow =>
    rw [hn] at hnext
    cases hnext
    exact hgrow
  | unfinished hn _ =>
    rw [hn] at hnext
    cases hnext
  | wrong hn _ =>
    rw [hn] at hnext
    cases hnext

/-- What a stream cannot keep any more, no other stream has kept of the same source. -/
theorem Exhausted.reads_nil (h : stream.Exhausted) {more : List Delivery} {last : Lexer}
    (hmore : Lexer.Reads stream.lexer more last)
    (hended : ∀ delivery ∈ more, delivery.token.isEnd = false ∧
      delivery.token.stop.offset < Text.size stream.source) : more = [] := by
  cases hmore with
  | none => rfl
  | one hnext _ _ =>
    obtain ⟨hend, hlt⟩ := hended _ List.mem_cons_self
    have hgrow := h _ _ hnext
    rw [mayGrow, hend, Bool.false_or, decide_eq_true_iff] at hgrow
    exact absurd hlt (Nat.not_lt.mpr hgrow)

/-- Two streams that have come to the same text, and can keep nothing more of it, are the same. -/
theorem eq_of_exhausted (h : stream.Holds deliveries) (h' : stream'.Holds deliveries')
    (htrim : stream.Trim) (htrim' : stream'.Trim) (hstop : stream.Exhausted)
    (hstop' : stream'.Exhausted) (hoptions : stream.options = stream'.options)
    (hsource : stream.source = stream'.source) : stream = stream' := by
  have hended : ∀ delivery ∈ deliveries, delivery.token.isEnd = false ∧
      delivery.token.stop.offset < Text.size stream.source := fun delivery hmem =>
    htrim.ended _ (h.tokens_eq ▸ List.mem_map_of_mem hmem)
  have hended' : ∀ delivery ∈ deliveries', delivery.token.isEnd = false ∧
      delivery.token.stop.offset < Text.size stream'.source := fun delivery hmem =>
    htrim'.ended _ (h'.tokens_eq ▸ List.mem_map_of_mem hmem)
  have hreads' := h'.reads_self
  rw [← hoptions, ← hsource] at hreads'
  -- one has read at least as far as the other, and no further
  have hsame : deliveries = deliveries' := by
    rcases h.reads_self.comparable hreads' with ⟨more, rfl, hmore⟩ | ⟨more, rfl, hmore⟩
    · have hnil := hstop.reads_nil hmore fun delivery hmem =>
        hsource ▸ hended' delivery (List.mem_append_right _ hmem)
      rw [hnil, List.append_nil]
    · have hnil := hstop'.reads_nil hmore fun delivery hmem =>
        hsource ▸ hended delivery (List.mem_append_right _ hmem)
      rw [hnil, List.append_nil]
  have htokens : stream.tokens = stream'.tokens := by rw [h.tokens_eq, h'.tokens_eq, hsame]
  have hcomments : stream.comments = stream'.comments := by
    rw [h.comments_eq, h'.comments_eq, hsame]
  have hcheckpoint : stream.checkpoint = stream'.checkpoint := by
    rw [htrim.checkpoint_eq, htrim'.checkpoint_eq, htokens]
  obtain ⟨options, source, tokens, comments, checkpoint⟩ := stream
  obtain ⟨options', source', tokens', comments', checkpoint'⟩ := stream'
  obtain rfl := hoptions
  obtain rfl := hsource
  obtain rfl := htokens
  obtain rfl := hcomments
  obtain rfl := hcheckpoint
  rfl

/-! ## What is answered -/

/-- How a stream answers a piece of input from what it holds then. -/
inductive Answered (stream : Stream) : Except ParseError Progress → Prop where
  | progress : Stopped stream (.ok ()) → Answered stream stream.progress
  | wrong {error : ParseError} {after : Lexer} : stream.lexer.next = (.error error, after) →
      error.endOfInput = false → Answered stream (.error error)

/-- A stream that has answered is exhausted. -/
theorem Answered.exhausted {answer : Except ParseError Progress} (h : Answered stream answer) :
    stream.Exhausted := by
  cases h with
  | progress hstopped => exact hstopped.exhausted
  | wrong hn hend => exact (Stopped.wrong hn hend).exhausted

/-- What was read decides how a piece is answered. -/
theorem Answered.unique {answer answer' : Except ParseError Progress} (h : Answered stream answer)
    (h' : Answered stream answer') : answer = answer' := by
  have hstop {error : ParseError} {after : Lexer} (hstopped : Stopped stream (.ok ()))
      (hn : stream.lexer.next = (.error error, after)) : error.endOfInput = true := by
    generalize hresult : Except.ok () = result at hstopped
    cases hstopped with
    | waiting hnext _ =>
      rw [hn] at hnext
      cases hnext
    | unfinished hnext hend =>
      rw [hn] at hnext
      cases hnext
      exact hend
    | wrong => cases hresult
  cases h with
  | progress hstopped =>
    cases h' with
    | progress _ => rfl
    | wrong hn hend => exact absurd (hstop hstopped hn) (by simp [hend])
  | wrong hn hend =>
    cases h' with
    | progress hstopped => exact absurd (hstop hstopped hn) (by simp [hend])
    | wrong hn' _ =>
      rw [hn] at hn'
      cases hn'
      rfl

/-- What a stream answers to a text is what it has read. -/
theorem Holds.answered (h : stream.Holds deliveries) (text : Text) :
    Answered (stream.write text).2 (stream.write text).1 := by
  obtain ⟨-, -, -, -, ⟨hstopped, hprogress⟩ | ⟨error, after, hn, hend, hwrong⟩⟩ := h.write_spec text
  · rw [hprogress]
    exact .progress hstopped
  · rw [hwrong]
    exact .wrong hn hend

/-- The last piece is answered alike, and leaves the same stream behind, however all of the input was
cut. -/
theorem write_fed {options : ParseOptions} {pieces others : List Text} {text last : Text}
    (h : pieces.flatten ++ text = others.flatten ++ last) :
    (fed options pieces).write text = (fed options others).write last := by
  obtain ⟨deliveries, hfed, hoptions, hsource⟩ := holds_fed options pieces
  obtain ⟨others', hfed', hoptions', hsource'⟩ := holds_fed options others
  obtain ⟨_, hholds, hkept, hcame, -⟩ := hfed.write_spec text
  obtain ⟨_, hholds', hkept', hcame', -⟩ := hfed'.write_spec last
  have hanswer := hfed.answered text
  have hanswer' := hfed'.answered last
  have hstream : ((fed options pieces).write text).2 = ((fed options others).write last).2 := by
    refine eq_of_exhausted hholds hholds' ((trim_fed options pieces).write text)
      ((trim_fed options others).write last) hanswer.exhausted hanswer'.exhausted ?_ ?_
    · rw [hkept, hkept', hoptions, hoptions']
    · rw [hcame, hcame', hsource, hsource', h]
  exact Prod.ext (hanswer.unique (hstream ▸ hanswer')) hstream

/-- To feed texts is to feed some, then one and then the others. -/
theorem fed_concat (options : ParseOptions) (pieces : List Text) (text : Text) (more : List Text) :
    fed options (pieces ++ text :: more) =
      more.foldl (fun stream text => (stream.write text).2) ((fed options pieces).write text).2 := by
  rw [fed, List.foldl_append, List.foldl_cons]
  rfl

end Stream

/-- However an input is cut into pieces, the last piece leaves the same stream behind, with the same
tokens, comments and checkpoint, and is answered with the same progress or the same error. So whatever is
written then, and the end of the input, are answered alike as well. -/
theorem fed_of_cut {options : ParseOptions} {pieces others : List Text} {text last : Text}
    (h : (pieces ++ [text]).flatten = (others ++ [last]).flatten) :
    (Stream.fed options pieces).write text = (Stream.fed options others).write last ∧
      ∀ more later,
        (Stream.fed options (pieces ++ text :: more)).write later =
            (Stream.fed options (others ++ last :: more)).write later ∧
          (Stream.fed options (pieces ++ text :: more)).finish later =
            (Stream.fed options (others ++ last :: more)).finish later := by
  have hwrite : (Stream.fed options pieces).write text = (Stream.fed options others).write last := by
    refine Stream.write_fed ?_
    simpa only [List.flatten_append, List.flatten_singleton] using h
  refine ⟨hwrite, fun more later => ?_⟩
  rw [Stream.fed_concat, Stream.fed_concat, hwrite]
  exact ⟨rfl, rfl⟩

/-- A cut through an operator, at which the first piece is refused, and one through a comment. -/
theorem fed_of_cut_refused :
    (["x=a~".toList] ++ ["=b--c\n ".toList]).flatten =
        (["x=a~=b--".toList] ++ ["c\n ".toList]).flatten ∧
      (Stream.fed {} ["x=a~".toList]).write "=b--c\n ".toList =
        (Stream.fed {} ["x=a~=b--".toList]).write "c\n ".toList ∧
      (Stream.fed {} ["x=a~".toList, "=b--c\n ".toList]).finish "return x".toList =
        (Stream.fed {} ["x=a~=b--".toList, "c\n ".toList]).finish "return x".toList := by
  have hcut : (["x=a~".toList] ++ ["=b--c\n ".toList]).flatten =
      (["x=a~=b--".toList] ++ ["c\n ".toList]).flatten := rfl
  obtain ⟨hwrite, hlater⟩ := @fed_of_cut {} _ _ _ _ hcut
  exact ⟨hcut, hwrite, (hlater [] _).2⟩

end LuaSyntax
