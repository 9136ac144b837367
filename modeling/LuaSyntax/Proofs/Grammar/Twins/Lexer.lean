import LuaSyntax.Token.Lexer
import LuaSyntax.Proofs.Grammar.Twins.Books

/-!
# Lexers of twins

What is kept with a tree is decided by options that a lexer reads only to collect and to place comments. Under
options that differ in nothing else, a source has the same tokens and the same errors, and the comments are
akin if they are collected under both or under neither.
-/

namespace LuaSyntax

variable {erasure : Erasure} {source : Text}

/-- Options that differ for a source in nothing but what is kept with its tree and in whether gotos are
checked, the places as far as an erasure takes them away. -/
structure ParseOptions.Kin (erasure : Erasure) (source : Text) (a b : ParseOptions) : Prop where
  dialect : a.dialect = b.dialect
  extended : a.extendedIdentifiers = b.extendedIdentifiers
  placement : ∀ start stop, Akin erasure (.between a source start stop : Placement)
    (.between b source start stop)

/-- Options that differ for a source in nothing but what an erasure takes away, and in whether gotos are
checked. -/
structure ParseOptions.Alike (erasure : Erasure) (source : Text) (a b : ParseOptions) : Prop where
  dialect : a.dialect = b.dialect
  extended : a.extendedIdentifiers = b.extendedIdentifiers
  scopes : a.trackScopes = b.trackScopes
  collects : a.collectComments = b.collectComments
  placement : ∀ start stop, Akin erasure (.between a source start stop : Placement)
    (.between b source start stop)

/-- Lexers that read the same tokens make options akin. -/
theorem ParseOptions.Alike.kin {a b : ParseOptions} (h : a.Alike erasure source b) :
    a.Kin erasure source b :=
  ⟨h.dialect, h.extended, h.placement⟩

section

variable {a b : ParseOptions} (h : a.Kin erasure source b)

include h

/-- Comments are collected to what is akin, and up to the same place. -/
theorem Trivia.akin_collect (row : List (Text × Trivium)) (place : Place) :
    Akin erasure (collect a source place row).1 (collect b source place row).1 ∧
      (collect a source place row).2 = (collect b source place row).2 := by
  induction row generalizing place with
  | nil => exact ⟨rfl, rfl⟩
  | cons item others ih =>
    obtain ⟨text, trivium⟩ := item
    obtain ⟨hcomments, hstop⟩ := ih (place.after text)
    cases trivium with
    | blank => exact ⟨hcomments, hstop⟩
    | comment value =>
      refine ⟨akin_cons.mpr ⟨?_, hcomments⟩, hstop⟩
      exact congrArg (Comment.mk (String.ofList value) (String.ofList text)) (h.placement place _)

/-- What is found between two tokens is akin under both options. -/
theorem Trivia.akin_comments (hcollects : a.collectComments = b.collectComments) (place : Place)
    (text : Text) :
    Akin erasure (read a source place text).comments (read b source place text).comments := by
  show Akin erasure (if a.collectComments then _ else _) (if b.collectComments then _ else _)
  rw [hcollects]
  split
  · exact (akin_collect h _ place).1
  · rfl

/-- What is found between two tokens ends at the same place under both options. -/
theorem Trivia.stop_eq (place : Place) (text : Text) :
    (read a source place text).stop = (read b source place text).stop :=
  (akin_collect h _ place).2

/-- A lexeme is read alike under both options. -/
theorem Lexeme.read_alike (line : Nat) (text : Text) : read a line text = read b line text := by
  rw [read.eq_def, read.eq_def, h.dialect, h.extended]

end

namespace Lexer

variable {collect : Prop}

/-- Lexers that have come equally far, with comments that are akin if they are to be. -/
structure Abreast (erasure : Erasure) (collect : Prop) (a b : Lexer) : Prop where
  options : a.options.Kin erasure a.source b.options
  collects : collect → a.options.collectComments = b.options.collectComments
  source : a.source = b.source
  place : a.place = b.place
  rest : a.rest = b.rest
  comments : collect → Akin erasure a.comments b.comments

/-- Lexers that stand abreast give the same token and stand abreast behind it. -/
theorem Abreast.next {a b : Lexer} (h : Abreast erasure collect a b) :
    a.next.1 = b.next.1 ∧ Abreast erasure collect a.next.2 b.next.2 := by
  obtain ⟨options, source, place, rest, comments⟩ := a
  obtain ⟨options', source', place', rest', comments'⟩ := b
  obtain ⟨hoptions, hcollects, rfl, rfl, rfl, hcomments⟩ := h
  cases rest with
  | none => exact ⟨rfl, hoptions, hcollects, rfl, rfl, rfl, hcomments⟩
  | some text =>
    have hstop := Trivia.stop_eq hoptions place text
    have hread := fun hcollect => Trivia.akin_comments hoptions (hcollects hcollect) place text
    have hrest : (Trivia.read options source place text).rest =
      (Trivia.read options' source place text).rest := rfl
    have hunfinished : (Trivia.read options source place text).unfinished =
      (Trivia.read options' source place text).unfinished := rfl
    simp only [Lexer.next]
    generalize Trivia.read options source place text = trivia at *
    generalize Trivia.read options' source place text = trivia' at *
    obtain ⟨found, stop, rest, unfinished⟩ := trivia
    obtain ⟨found', stop', rest', unfinished'⟩ := trivia'
    obtain ⟨rfl, rfl, rfl⟩ : stop = stop' ∧ rest = rest' ∧ unfinished = unfinished' :=
      ⟨hstop, hrest, hunfinished⟩
    have hmore (hcollect : collect) : Akin erasure (comments ++ found) (comments' ++ found') :=
      (hcomments hcollect).append (hread hcollect)
    rw [Lexeme.read_alike hoptions]
    cases unfinished with
    | true => exact ⟨rfl, hoptions, hcollects, rfl, rfl, rfl, hmore⟩
    | false =>
      cases Lexeme.read options' stop.line rest with
      | ok read => exact ⟨rfl, hoptions, hcollects, rfl, rfl, rfl, hmore⟩
      | error fault => exact ⟨rfl, hoptions, hcollects, rfl, rfl, rfl, hmore⟩

/-- Lexers that stand abreast do so without their comments. -/
theorem Abreast.drain {a b : Lexer} (h : Abreast erasure collect a b) :
    Abreast erasure collect a.drain.2 b.drain.2 :=
  ⟨h.options, h.collects, h.source, h.place, h.rest, fun _ => rfl⟩

/-- What is read by lexers that stand abreast is the same but for comments, and akin if these are collected. -/
theorem Abreast.readAll {a b : Lexer} (h : Abreast erasure collect a b) (fuel : Nat) :
    (readAll fuel a).bare = (readAll fuel b).bare ∧
      (collect → Akin erasure (readAll fuel a) (readAll fuel b)) := by
  induction fuel generalizing a b with
  | zero =>
    show Feed.bare (Feed.mk [] (.ok ⟨.endOfInput a.place, []⟩)) =
        Feed.bare ⟨[], .ok ⟨.endOfInput b.place, []⟩⟩ ∧
      (_ → Akin erasure (Feed.mk [] (.ok ⟨.endOfInput a.place, []⟩)) ⟨[], .ok ⟨.endOfInput b.place, []⟩⟩)
    rw [h.place]
    exact ⟨rfl, fun _ => rfl⟩
  | succ fuel ih =>
    obtain ⟨hresult, hafter⟩ := h.next
    rw [Lexer.readAll, Lexer.readAll]
    match ha : a.next, hb : b.next with
    | (x, after), (y, after') =>
      rw [ha, hb] at hresult hafter
      obtain rfl : x = y := hresult
      cases x with
      | error error => exact ⟨rfl, fun _ => rfl⟩
      | ok token =>
        have hdelivery (hcollect : collect) :
            Akin erasure (Delivery.mk token after.comments) ⟨token, after'.comments⟩ :=
          congrArg (Delivery.mk token) (hafter.comments hcollect)
        cases hend : token.isEnd with
        | true =>
          simp only [hend, if_true]
          exact ⟨rfl, fun hcollect =>
            congrArg (fun delivery => Feed.mk [] (.ok delivery)) (hdelivery hcollect)⟩
        | false =>
          obtain ⟨hbare, hfeed⟩ := ih hafter.drain
          simp only [hend, Bool.false_eq_true, if_false]
          constructor
          · exact congrArg (fun feed : Feed => Feed.mk (⟨token, []⟩ :: feed.deliveries) feed.ending) hbare
          · exact fun hcollect =>
              congrArg₂ (fun delivery (feed : Feed) => Feed.mk (delivery :: feed.deliveries) feed.ending)
                (hdelivery hcollect) (hfeed hcollect)

/-- Lexers that stand abreast do so behind a shebang. -/
theorem Abreast.skipShebang {a b : Lexer} (h : Abreast erasure collect a b) :
    Abreast erasure collect a.skipShebang b.skipShebang := by
  rw [Lexer.skipShebang, Lexer.skipShebang, h.place, h.source]
  split
  · exact ⟨h.source ▸ h.options, h.collects, rfl, rfl, rfl, h.comments⟩
  · exact h

/-- The feeds of a source have the same tokens, and akin comments if these are collected alike. -/
theorem feed_kin {a b : ParseOptions} (h : a.Kin erasure source b) :
    (feed a source).bare = (feed b source).bare ∧
      (a.collectComments = b.collectComments → Akin erasure (feed a source) (feed b source)) := by
  have hresume : Abreast erasure (a.collectComments = b.collectComments) (resume a source .start)
      (resume b source .start) :=
    ⟨h, id, rfl, rfl, rfl, fun _ => rfl⟩
  exact hresume.skipShebang.readAll _

end Lexer

end LuaSyntax
