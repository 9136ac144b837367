import LuaSyntax.Proofs.Grammar.Depth.Levels
import LuaSyntax.Proofs.Grammar.Complete.Chunk
import LuaSyntax.Proofs.Grammar.Grounded.Dialect
import LuaSyntax.Proofs.Grammar.Twins.Whole
import LuaSyntax.Proofs.Reading.Dialects
import LuaSyntax.Proofs.Tree.Features
import LuaSyntax.Proofs.Tree.Parts
import LuaSyntax.Proofs.Writing.Carried.Statement

/-!
# Grammars of other dialects

A dialect may have the grammar of another and perhaps more: types behind declared names. The tokens of a source of
the other dialect are accepted in it as well, with the same chunk. That no type is read where the other dialect
would read on is known from the tree: what is written in the other dialect is written in this one, so the tree
that this one reads is the same but for annotations, and nothing in it has a type.

A dialect that adds to another in other ways too, and takes nothing away, still accepts what the other accepts,
with the same tree. The tokens are the same, since a source on which they differ has something behind an operator
that begins no expression, and what is accepted has an expression there. Of the same tokens both grammars make
the same tree. The one thing that an extension can take away is a name that it reserves.
-/

namespace LuaSyntax

open Grammar

/-- A dialect whose grammar another dialect has. The other may have types where this one has none. -/
structure Dialect.Within (dialect other : Dialect) : Prop where
  features : ∀ feature ∈ grammatical, dialect.has feature = other.has feature
  untyped : dialect.has .typedIdentifiers = false

namespace Dialect.Within

variable {dialect other : Dialect} (h : dialect.Within other)

include h

/-- What is well-formed in a dialect is so in one that has its grammar. -/
theorem admits : dialect.Admits other where
  labels := (h.features _ (by decide)).symm
  relaxedBreak := (h.features _ (by decide)).symm
  typed htyped := absurd (h.untyped.symm.trans htyped) Bool.false_ne_true

/-- What is written in a dialect is written in one that has its grammar, with the same tokens. -/
theorem carries : Carries dialect other Eq where
  features := h.features
  typed htyped := absurd (h.untyped.symm.trans htyped) Bool.false_ne_true
  value heq := heq ▸ rfl
  lexeme heq := heq ▸ rfl
  ahead heq := heq ▸ rfl
  line _ heq _ hline := heq ▸ hline
  step heq _ := heq ▸ rfl

end Dialect.Within

/-- The tokens of a dialect, and trees that need no features but its own. -/
def Ground.ofFeatures (options : ParseOptions) (source : Text) : Ground :=
  { Ground.ofDialect options source with
    demands := .features fun feature => options.dialect.has feature = true
    identifier := fun _ _ => trivial
    renamed := fun _ _ => trivial }

variable {dialect other : Dialect} {options : ParseOptions} {source : Text} {chunk : Chunk}

/-- An accepted tree needs no features but those of its dialect. -/
theorem features_of_parse (h : parse options source = .ok chunk) :
    chunk.Meets (.features fun feature => options.dialect.has feature = true) := by
  obtain ⟨text, hsited, -⟩ := Lexer.sited_start options source
  have hstart : (Lexer.start options source).options = options := Lexer.options_start options source
  have hdialect := Ground.covers_ofDialect options source
  have hcovers : (Ground.ofFeatures options source).Covers fun lexer =>
      lexer.options = options ∧ ∃ text, lexer.Sited text :=
    ⟨hdialect.sited, hdialect.next,
      fun hlexer hnext => ⟨(hdialect.token hlexer hnext).1, fun _ _ => trivial⟩, fun _ _ => trivial⟩
  exact (hcovers.parsed ⟨hstart, text, hsited⟩).1 chunk h

/-- What is told of a tree without types is no type. -/
theorem Grammar.not_typed_of_run {feed : Feed} {dialect : Dialect} (huntyped : dialect.has .typedIdentifiers = false)
    (h : (run options source feed).result = .ok chunk)
    (hmeets : chunk.Meets (.features fun feature => dialect.has feature = true)) (typed : TypedIdentifier) :
    .completed (.typedIdentifier typed) ∉ (run options source feed).events := by
  intro hmem
  have hnode : Node.typedIdentifier typed ∈ (run options source feed).events.filterMap Event.part? :=
    List.mem_filterMap.mpr ⟨_, hmem, rfl⟩
  rw [(told_of_run h).1] at hnode
  obtain ⟨node, hpart, heq⟩ := List.mem_map.mp hnode
  have hpartMeets := @Node.Meets.postorder _ (.chunk chunk) hmeets node hpart
  cases node with
  | typedIdentifier =>
    have htyped : dialect.has .typedIdentifiers = true := hpartMeets.1
    exact Bool.false_ne_true (huntyped.symm.trans htyped)
  | _ => cases heq

/-- Tokens that a dialect accepts are accepted by one that has its grammar, with a tree that is the same but for
annotations. -/
theorem Grammar.reads_within (h : options.dialect.Within other) {feed : Feed} {last : Delivery}
    (hending : feed.ending = .ok last) (hlast : last.token.isEnd = true)
    (hrun : (run options source feed).result = .ok chunk) :
    ∃ chunk', (run (options.under other) source feed).result = .ok chunk' ∧ Same chunk chunk' := by
  obtain ⟨deliveries, ending⟩ := feed
  obtain rfl : ending = .ok last := hending
  obtain ⟨⟨q, hwritten, -⟩, hwellFormed⟩ := run_reads hlast hrun
  obtain ⟨q', -, hwritten'⟩ := hwritten.carried h.carries rfl
  exact @run_gives q' (options.under other) source _ last hlast chunk hwritten' (hwellFormed.admitted h.admits)

/-- Parses of which one may read types come to the same chunk if both succeed and it has read none. -/
theorem Grammar.run_untyped (h : options.dialect.Within other) {feed : Feed} {chunk' : Chunk}
    (hrun : (run options source feed).result = .ok chunk)
    (hrun' : (run (options.under other) source feed).result = .ok chunk')
    (huntyped : ∀ typed, .completed (.typedIdentifier typed) ∉ (run (options.under other) source feed).events) :
    chunk' = chunk := by
  let T : Twins :=
    { left := .ofFeed (options.under other) source feed
      right := .ofFeed options source feed
      erasure := .nothing
      excused _ := True
      strays event := ∃ typed, event = .completed (.typedIdentifier typed) }
  have : T.Sound :=
    { source := rfl
      turns := rfl
      overrun := rfl
      features := fun feature hmem => (h.features feature hmem).symm
      typed := .inr ⟨h.untyped, fun _ => trivial, fun typed => ⟨typed, rfl⟩⟩
      forgets := fun h => absurd rfl h
      checks := id
      placement := fun _ _ => rfl
      scope := fun _ _ => Erasure.scope_nothing }
  have hstart : T.Related (.initial (options.under other) feed) (.initial options feed) := by
    refine ⟨rfl, fun _ => rfl, rfl, rfl, rfl, fun _ => rfl, fun _ => rfl, rfl, ?_⟩
    have hlabels : (options.under other).has .labels = options.has .labels :=
      (h.features .labels (by decide)).symm
    simp only [State.initial, hlabels]
    rfl
  have hends := Twins.ends_chunk (Twins.fit_levels nestingLimit) hstart rfl
  rw [run_eq_levels] at hrun hrun' huntyped
  rcases hends.eq_or_apart rfl rfl rfl rfl with heq | happart
  · exact Except.ok.inj (hrun'.symm.trans (heq.symm.trans hrun))
  · obtain ⟨⟨event, hmem, typed, rfl⟩, -⟩ := happart.told chunk' _ (Prod.ext hrun' rfl)
    exact absurd (List.mem_reverse.mpr hmem) (huntyped typed)

/-- The tokens of an accepted source are accepted with the same chunk in a dialect that has the grammar. -/
theorem Grammar.run_within (h : options.dialect.Within other) (hparse : parse options source = .ok chunk) :
    (run (options.under other) source (Lexer.feed options source)).result = .ok chunk := by
  obtain ⟨last, hending, hlast⟩ := feed_of_parse hparse
  obtain ⟨chunk', hrun, hsame⟩ := reads_within h hending hlast hparse
  have hbody : chunk.body.erase .annotations = chunk'.body.erase .annotations := by
    injection hsame
  have hmeets : chunk'.Meets (.features fun feature => options.dialect.has feature = true) := by
    refine Chunk.meets_features ((@Block.meets_erase _ .annotations chunk'.body).mp ?_)
    rw [← hbody]
    exact chunk.body.meets_erase.mpr (features_of_parse hparse).1
  rw [hrun, run_untyped h hparse hrun (not_typed_of_run h.untyped hrun hmeets)]

/-! ## Conservative extensions -/

/-- All tokens of a source are tokens of its dialect. -/
theorem speaks_of_feed (options : ParseOptions) (source : Text) :
    ∀ delivery ∈ (Lexer.feed options source).deliveries, options.dialect.Speaks delivery.token.value := by
  obtain ⟨text, hsited, -⟩ := Lexer.sited_start options source
  obtain ⟨last, hreads, -⟩ := hsited.reads_reading
  have hcovers := Ground.covers_ofDialect options source
  rw [Lexer.feed_eq_reading]
  intro delivery hmem
  obtain ⟨lexer, after, hlexer, hnext, -⟩ :=
    (hreads.holds ⟨Lexer.options_start options source, text, hsited⟩ hcovers.next).2 delivery hmem
  exact (hcovers.token hlexer hnext).1.1

/-- What a dialect accepts is accepted by one that extends it, if that one reserves no name in it. -/
theorem parse_under (hextended : options.dialect.ExtendedBy other) (hwithin : options.dialect.Within other)
    (hnames : ∀ delivery ∈ (Lexer.feed options source).deliveries, ∀ name,
      delivery.token.value = .identifier name → ¬ other.Reserves name)
    (hparse : parse options source = .ok chunk) : parse (options.under other) source = .ok chunk := by
  obtain ⟨last, hending, hlast⟩ := feed_of_parse hparse
  have hchain := Grammar.isChain_of_accepted hlast (isEnd_of_feed options source) (run_of_parse hparse hending)
  rw [parse, parseWithEvents, Lexer.feed_under hextended hending hnames hchain]
  exact Grammar.run_within hwithin hparse

/-! ### The extensions -/

/-- Lua 5.3 only adds to Lua 5.2. -/
theorem Dialect.lua52_extendedBy : lua52.ExtendedBy lua53 where
  has feature := by cases feature <;> decide
  same feature := by cases feature <;> decide
  escapes := .inl rfl

/-- The grammar of Lua 5.2 is in that of Lua 5.3. -/
theorem Dialect.lua52_within : lua52.Within lua53 where
  features := by decide
  untyped := rfl

/-- Havok Script only adds to Lua 5.1. -/
theorem Dialect.lua51_extendedBy : lua51.ExtendedBy havokScript51 where
  has feature := by cases feature <;> decide
  same feature := by cases feature <;> decide
  escapes := .inr rfl

/-- The grammar of Lua 5.1 is in that of Havok Script. -/
theorem Dialect.lua51_within : lua51.Within havokScript51 where
  features := by decide
  untyped := rfl

/-- A dialect reserves no more than another if all its keywords are keywords of the other, except those that a
name is known not to be. -/
theorem Dialect.not_reserves {name : String} (h : ¬ dialect.Reserves name)
    (hwords : ∀ word : ReservedWord, word.reservedIn other = true →
      word.reservedIn dialect = true ∨ word.spelling ≠ name) : ¬ other.Reserves name := by
  rintro (hliteral | ⟨word, hreserved, hspelling⟩)
  · exact h (.inl hliteral)
  · rcases hwords word hreserved with hboth | hdiffers
    · exact h (.inr ⟨word, hboth, hspelling⟩)
    · exact hdiffers hspelling

/-- Lua 5.3 accepts what Lua 5.2 accepts, with the same tree; and so does HavokScript with what Lua 5.1 accepts,
unless one of the words that it reserves is a name there. -/
theorem parse_conservative (options : ParseOptions) (source : Text) (chunk : Chunk) :
    (parse (options.under .lua52) source = .ok chunk → parse (options.under .lua53) source = .ok chunk) ∧
      (parse (options.under .lua51) source = .ok chunk →
        (∀ tokens, tokenize (options.under .lua51) source = .ok tokens → ∀ token ∈ tokens,
          token.value ≠ .identifier "hstructure" ∧ token.value ≠ .identifier "hmake") →
        parse (options.under .havokScript51) source = .ok chunk) := by
  constructor
  · refine @parse_under .lua53 (options.under .lua52) source chunk Dialect.lua52_extendedBy Dialect.lua52_within ?_
    intro delivery hmem name hvalue
    refine Dialect.not_reserves ((speaks_of_feed _ _ delivery hmem).name name hvalue) fun word hword => ?_
    exact .inl (by cases word <;> first | rfl | cases hword)
  · intro hparse hnames
    obtain ⟨last, hending, -⟩ := feed_of_parse hparse
    have htokens := hnames _ (congrArg (Except.map _) hending)
    refine @parse_under .havokScript51 (options.under .lua51) source chunk Dialect.lua51_extendedBy
      Dialect.lua51_within (fun delivery hmem name hvalue => ?_) hparse
    obtain ⟨hstructure, hmake⟩ := htokens delivery.token (List.mem_append_left _ (List.mem_map_of_mem hmem))
    rw [hvalue] at hstructure hmake
    refine Dialect.not_reserves ((speaks_of_feed _ _ delivery hmem).name name hvalue) fun word hword => ?_
    cases word with
    | hstructureWord => exact .inr fun heq => hstructure (congrArg _ heq.symm)
    | hmakeWord => exact .inr fun heq => hmake (congrArg _ heq.symm)
    | gotoWord => cases hword
    | _ => exact .inl rfl

/-- Sources of the smaller dialects that the larger ones accept. -/
theorem parse_conservative_call : ∃ chunk chunk',
    parse (ParseOptions.under {} .lua52) "goto l x = y / z ::l::".toList = .ok chunk ∧
      parse (ParseOptions.under {} .lua53) "goto l x = y / z ::l::".toList = .ok chunk ∧
      parse (ParseOptions.under {} .lua51) "local goto = f()".toList = .ok chunk' ∧
      parse (ParseOptions.under {} .havokScript51) "local goto = f()".toList = .ok chunk' := by
  have hjump : (parse (ParseOptions.under {} .lua52) "goto l x = y / z ::l::".toList).toBool = true := by
    decide +kernel
  have hcall : (parse (ParseOptions.under {} .lua51) "local goto = f()".toList).toBool = true := by
    decide +kernel
  have hnames : (tokenize (ParseOptions.under {} .lua51) "local goto = f()".toList).toOption.all
      (fun tokens => tokens.all fun token => token.value != .identifier "hstructure" &&
        token.value != .identifier "hmake") = true := by
    decide +kernel
  cases hparse : parse (ParseOptions.under {} .lua52) "goto l x = y / z ::l::".toList with
  | error error =>
    rw [hparse] at hjump
    cases hjump
  | ok chunk =>
    cases hparse' : parse (ParseOptions.under {} .lua51) "local goto = f()".toList with
    | error error =>
      rw [hparse'] at hcall
      cases hcall
    | ok chunk' =>
      refine ⟨chunk, chunk', rfl, (parse_conservative {} _ chunk).1 hparse, rfl,
        (parse_conservative {} _ chunk').2 hparse' fun tokens htokens token hmem => ?_⟩
      rw [htokens] at hnames
      have htoken := List.all_eq_true.mp hnames token hmem
      simpa using htoken

end LuaSyntax
