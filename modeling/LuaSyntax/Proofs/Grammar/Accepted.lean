import LuaSyntax.Proofs.Grammar.Sound.Chunk
import LuaSyntax.Proofs.Jumps.Sites
import LuaSyntax.Proofs.Streaming.OneShot

/-!
# Trees of accepted sources

A source that is accepted has a well-formed tree. What that means for the jumps in it is said here of
every block of the tree: a `goto` does not enter the scope of a local, unless it was taken for a jump to
a label of the same name further out.
-/

namespace LuaSyntax

open Grammar (run)

variable {options : ParseOptions} {source : Text} {chunk : Chunk}

/-- Only a source that is all tokens is accepted. -/
theorem feed_of_parse (h : parse options source = .ok chunk) :
    ∃ last, (Lexer.feed options source).ending = .ok last ∧ last.token.isEnd = true := by
  obtain ⟨text, hsited, -⟩ := Lexer.sited_start options source
  obtain ⟨_, -, ⟨error, _, -, hending⟩ | ⟨token, _, -, hend, hending⟩⟩ := hsited.reads_reading
  · have herror : tokenize options source = .error error := by
      rw [tokenize, Feed.tokens, Lexer.feed_eq_reading, hending]
      rfl
    obtain ⟨error', herror'⟩ := parse_of_tokenize herror
    rw [h] at herror'
    cases herror'
  · rw [Lexer.feed_eq_reading]
    exact ⟨_, hending, hend⟩

/-- What is accepted is accepted as the tokens that are read and their end. -/
theorem run_of_parse (h : parse options source = .ok chunk) {last : Delivery}
    (hending : (Lexer.feed options source).ending = .ok last) :
    (run options source ⟨(Lexer.feed options source).deliveries, .ok last⟩).result = .ok chunk := by
  rw [← hending]
  exact h

/-- What is accepted is well-formed in its dialect. -/
theorem wellFormed_of_parse (h : parse options source = .ok chunk) :
    chunk.WellFormed options.dialect options.checkGotoLabels := by
  obtain ⟨last, hending, hend⟩ := feed_of_parse h
  exact (Grammar.run_reads hend (run_of_parse h hending)).2

/-- A `goto` of an accepted source that has its label further on in a block around it, behind a local of
that block, has nothing but labels behind the label and no condition behind the block. This holds if no
label of its name stands before the block in blocks around that. -/
theorem goto_enters_no_local (hparse : parse options source = .ok chunk)
    (hlabels : options.has .labels = true) {outer : List String} {isRepeat : Bool} {block : Block}
    (hsite : chunk.Site outer isRepeat block) {before between after : List Statement}
    {statement : Statement} {label : Identifier} {placement : Placement}
    (heq : block.statements =
      before ++ statement :: between ++ .labelStatement label placement :: after)
    (hgoto : label.name ∈ statement.escaping) (houter : label.name ∉ outer)
    (hlocal : ∃ statement ∈ between, statement.declaresLocal = true) :
    (∀ statement ∈ after, statement.label? ≠ none) ∧ isRepeat = false :=
  hsite.entersNoLocal (wellFormed_of_parse hparse) hlabels heq hgoto houter hlocal

/-- Whether a source is one block that jumps over a local to a label, behind which is another label. -/
def isJumpToEnd : Except ParseError Chunk → Bool
  | .ok ⟨.mk [.doStatement (.mk [.gotoStatement target _, .localStatement _ _ _,
      .labelStatement label _, .labelStatement _ _] _) _] _, _, _, _⟩ => label.name == target.name
  | _ => false

/-- At the end of a block the scope of its locals is over, whatever labels stand there. -/
theorem goto_enters_no_local_at_end :
    ∃ chunk, parse { dialect := .lua52 } "do goto l local x ::l:: ::m:: end".toList = .ok chunk ∧
      ∃ outer isRepeat block before statement between label placement after,
        chunk.Site outer isRepeat block ∧
          block.statements =
            before ++ statement :: between ++ .labelStatement label placement :: after ∧
          label.name ∈ statement.escaping ∧
          (∃ statement ∈ between, statement.declaresLocal = true) ∧ after ≠ [] ∧
          (∀ statement ∈ after, statement.label? ≠ none) ∧ isRepeat = false := by
  have hshape : isJumpToEnd (parse { dialect := .lua52 } "do goto l local x ::l:: ::m:: end".toList) =
      true := by
    decide +kernel
  cases hresult : parse { dialect := .lua52 } "do goto l local x ::l:: ::m:: end".toList with
  | error error =>
    rw [hresult] at hshape
    cases hshape
  | ok chunk =>
    rw [hresult] at hshape
    refine ⟨chunk, rfl, ?_⟩
    unfold isJumpToEnd at hshape
    split at hshape
    · next target _ _ _ _ label _ _ _ _ _ _ _ _ _ hchunk =>
      obtain rfl := Except.ok.inj hchunk
      have hgoto : label.name ∈ [target.name] := List.mem_singleton.mpr (beq_iff_eq.mp hshape)
      refine ⟨_, _, _, [], _, [_], _, _, [_],
        .nested .chunk (show _ = [] ++ _ :: [] from rfl) (List.mem_singleton.mpr rfl), rfl, hgoto,
        ⟨_, List.mem_singleton.mpr rfl, rfl⟩, List.cons_ne_nil _ _, ?_⟩
      exact goto_enters_no_local hresult rfl
        (.nested .chunk (show _ = [] ++ _ :: [] from rfl) (List.mem_singleton.mpr rfl))
        (show _ = [] ++ _ :: [_] ++ _ :: [_] from rfl) hgoto List.not_mem_nil
        ⟨_, List.mem_singleton.mpr rfl, rfl⟩
    · cases hshape

/-- Whether a source is a label and a block that jumps over a local to a label of its own, behind which
is a call. -/
def isJumpOverLocal : Except ParseError Chunk → Bool
  | .ok ⟨.mk [.labelStatement _ _, .doStatement (.mk [.gotoStatement target _,
      .localStatement _ _ _, .labelStatement label _, .callStatement _ _] _) _] _, _, _, _⟩ =>
    label.name == target.name
  | _ => false

/-- Behind a label of the same name further out, a `goto` enters the scope of a local. -/
theorem goto_enters_local :
    ∃ chunk, parse { dialect := .lua52 } "::l:: do goto l local x ::l:: print(x) end".toList =
        .ok chunk ∧
      ∃ outer isRepeat block before statement between label placement after,
        chunk.Site outer isRepeat block ∧
          block.statements =
            before ++ statement :: between ++ .labelStatement label placement :: after ∧
          label.name ∈ statement.escaping ∧
          (∃ statement ∈ between, statement.declaresLocal = true) ∧
          ¬ ((∀ statement ∈ after, statement.label? ≠ none) ∧ isRepeat = false) := by
  have hshape : isJumpOverLocal (parse { dialect := .lua52 }
      "::l:: do goto l local x ::l:: print(x) end".toList) = true := by
    decide +kernel
  generalize parse _ _ = result at hshape ⊢
  unfold isJumpOverLocal at hshape
  split at hshape
  · refine ⟨_, rfl, _, _, _, [], _, [_], _, _, [_],
      .nested .chunk (show _ = [_] ++ _ :: [] from rfl) (List.mem_singleton.mpr rfl), rfl,
      List.mem_singleton.mpr (beq_iff_eq.mp hshape), ⟨_, List.mem_singleton.mpr rfl, rfl⟩, ?_⟩
    rintro ⟨hafter, -⟩
    exact hafter _ (List.mem_singleton.mpr rfl) rfl
  · cases hshape

end LuaSyntax
