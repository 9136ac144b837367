import LuaSyntax.Proofs.Writing.Beginnings
import LuaSyntax.Proofs.Writing.Words

/-!
# Words between points

A row of words stands between two points if the tokens there are those words, one by one. All of them
stand on one line, since in some dialects the parenthesis of a call has to stand on the line of what is
called.
-/

namespace LuaSyntax

variable {line : Nat} {p q m : Point} {word : Word} {words more : List Word}

/-- A token is a word on a line. -/
def Token.Shows (line : Nat) (token : Token) (word : Word) : Prop :=
  token.word = word ∧ token.start.line = line ∧ token.stop.line = line

namespace Writing

/-- The tokens between two points are given words on one line. -/
def Spells (line : Nat) : List Word → Point → Point → Prop
  | [], p, q => p = q
  | word :: words, p, q => p.token.Shows line word ∧ Spells line words p.step q

/-- Words are spelled one part behind the other. -/
theorem spells_append : Spells line (words ++ more) p q ↔
    ∃ m, Spells line words p m ∧ Spells line more m q := by
  induction words generalizing p with
  | nil => exact ⟨fun h => ⟨p, rfl, h⟩, fun ⟨_, h, h'⟩ => h ▸ h'⟩
  | cons word words ih =>
    rw [List.cons_append, Spells, ih]
    exact ⟨fun ⟨hword, m, h, h'⟩ => ⟨m, ⟨hword, h⟩, h'⟩, fun ⟨m, ⟨hword, h⟩, h'⟩ => ⟨hword, m, h, h'⟩⟩

namespace Spells

/-- The first word that is spelled shows in the next token. -/
theorem token (h : Spells line (word :: words) p q) : p.token.Shows line word := h.1

/-- A terminal that is spelled is faced. -/
theorem terminal {terminal : Grammar.Terminal} (h : Spells line (.terminal terminal :: words) p q) :
    p.Faces terminal ∧ Spells line words p.step q :=
  ⟨congrArg Word.value h.1.1, h.2⟩

/-- A name that is spelled stands behind the point. -/
theorem name {identifier : Identifier} (h : Spells line (.name identifier :: words) p q) :
    p.Names identifier ∧ Spells line words p.step q := by
  refine ⟨?_, h.2⟩
  rw [Point.Names, Token.name?, show p.token.value = _ from congrArg Word.value h.1.1]
  rfl

/-- A literal that is spelled stands behind the point. -/
theorem literal {literal : Literal} (h : Spells line (.literal literal :: words) p q) :
    p.Denotes literal ∧ Spells line words p.step q := by
  refine ⟨⟨?_, congrArg Word.text h.1.1⟩, h.2⟩
  rw [show p.token.value = _ from congrArg Word.value h.1.1]
  obtain ⟨value, raw, placement⟩ := literal
  cases value <;> rfl

/-- The last word is a terminal. -/
theorem concat {terminal : Grammar.Terminal} (h : Spells line (words ++ [.terminal terminal]) p q) :
    ∃ m, Spells line words p m ∧ m.Faces terminal ∧ q = m.step := by
  obtain ⟨m, hwords, hlast⟩ := spells_append.mp h
  obtain ⟨hfaces, hend⟩ := hlast.terminal
  exact ⟨m, hwords, hfaces, hend.symm⟩

/-- A terminal stands between words. -/
theorem between {terminal : Grammar.Terminal} (h : Spells line (words ++ .terminal terminal :: more) p q) :
    ∃ m, Spells line words p m ∧ m.Faces terminal ∧ Spells line more m.step q := by
  obtain ⟨m, hwords, hrest⟩ := spells_append.mp h
  exact ⟨m, hwords, hrest.terminal⟩

/-- What is spelled in parentheses stands between them. -/
theorem enclosed (h : Spells line (enclosed words) p q) :
    p.Faces Symbol.leftParen ∧ ∃ m, Spells line words p.step m ∧ m.Faces Symbol.rightParen ∧
      q = m.step :=
  ⟨h.terminal.1, h.terminal.2.concat⟩

/-- Behind words that are not none stands a token on their line. -/
theorem previous (h : Spells line words p q) (hwords : words ≠ []) : q.previous.stop.line = line := by
  induction words generalizing p with
  | nil => exact absurd rfl hwords
  | cons word words ih =>
    obtain ⟨hword, hrest⟩ := h
    cases words with
    | nil =>
      obtain rfl : p.step = q := hrest
      exact hword.2.2
    | cons next words => exact ih hrest (List.cons_ne_nil _ _)

end Spells

/-! ## Rows -/

section Rows

variable {α : Type} {item : α → Point → Point → Prop} {spelled : α → List Word} {items : List α}

/-- Things that are written as they are spelled, where nothing goes on with them. -/
def WrittenAs (line : Nat) (ends : Point → Prop) (spelled : α → List Word)
    (item : α → Point → Point → Prop) (a : α) : Prop :=
  ∀ p q, Spells line (spelled a) p q → ends q → item a p q

variable {ends : Point → Prop}

/-- Things behind commas that are spelled are written if each is. -/
theorem commas_of_spells (hitems : ∀ a ∈ items, WrittenAs line ends spelled item a)
    (hcomma : ∀ {p : Point}, p.Faces Symbol.comma → ends p)
    (h : Spells line ((items.map spelled).flatMap (.terminal Symbol.comma :: ·)) p q)
    (hend : ends q) (hstop : ¬ q.Faces Symbol.comma) : Commas item items p q := by
  induction items generalizing p with
  | nil =>
    obtain rfl : p = q := h
    exact .nil hstop
  | cons a rest ih =>
    obtain ⟨ha, hrest⟩ := List.forall_mem_cons.mp hitems
    rw [List.map_cons, List.flatMap_cons] at h
    obtain ⟨m, hfirst, hothers⟩ := spells_append.mp h
    obtain ⟨hfaces, hfirst⟩ := hfirst.terminal
    refine .cons hfaces (ha _ _ hfirst ?_) (ih hrest hothers)
    cases rest with
    | nil =>
      obtain rfl : m = q := hothers
      exact hend
    | cons => exact hcomma hothers.terminal.1

/-- What is spelled with commas between is written in a row. -/
theorem row_of_spells (hitems : ∀ a ∈ items, WrittenAs line ends spelled item a)
    (hcomma : ∀ {p : Point}, p.Faces Symbol.comma → ends p) (hne : items ≠ [])
    (h : Spells line (commaSeparated (items.map spelled)) p q)
    (hend : ends q) (hstop : ¬ q.Faces Symbol.comma) : Row item items p q := by
  cases items with
  | nil => exact absurd rfl hne
  | cons a rest =>
    obtain ⟨ha, hrest⟩ := List.forall_mem_cons.mp hitems
    obtain ⟨m, hfirst, hothers⟩ := spells_append.mp h
    refine .mk (ha _ _ hfirst ?_) (commas_of_spells hrest hcomma hothers hend hstop)
    cases rest with
    | nil =>
      obtain rfl : m = q := hothers
      exact hend
    | cons => exact hcomma hothers.terminal.1

/-- Fields that are spelled with commas between are written so. -/
theorem fields_of_spells {stop : Point → Prop} (hitems : ∀ a ∈ items, WrittenAs line ends spelled item a)
    (hcomma : ∀ {p : Point}, p.Faces Symbol.comma → ends p)
    (h : Spells line (commaSeparated (items.map spelled)) p q) (hend : ends q)
    (hempty : items = [] → stop q) (hstop : ¬ Separates q) : Fields stop item items p q := by
  induction items generalizing p with
  | nil =>
    obtain rfl : p = q := h
    exact .nil (hempty rfl)
  | cons a rest ih =>
    obtain ⟨ha, hrest⟩ := List.forall_mem_cons.mp hitems
    obtain ⟨m, hfirst, hothers⟩ := spells_append.mp h
    cases rest with
    | nil =>
      obtain rfl : m = q := hothers
      exact .last (ha _ _ hfirst hend) hstop
    | cons next rest =>
      obtain ⟨hfaces, hothers⟩ := hothers.terminal
      exact .more (ha _ _ hfirst (hcomma hfaces)) (.inl hfaces) (ih hrest hothers nofun)

end Rows

end Writing

end LuaSyntax
