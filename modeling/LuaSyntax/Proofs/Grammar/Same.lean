import LuaSyntax.Grammar.Rule
import LuaSyntax.Proofs.Tree.Erasure

/-!
# The same up to places

Where a token stands is written into trees and into errors, but hardly ever decides how the grammar
goes on. `Same` compares what a parse handles after everything was erased from it that is not in the
tokens: tokens by value and text, trees without their annotations, and the record of jumps with its
tokens compared so.

What the grammar asks of such a thing is the same for things that are the same, and what it makes of
them is the same again; the lemmas here say so for each question.
-/

namespace LuaSyntax

/-- Things that can be compared up to places. -/
class Blurred (α : Type) where
  blur : α → α

export Blurred (blur)

/-- Two things that differ at most in places. -/
def Same {α : Type} [Blurred α] (a b : α) : Prop := blur a = blur b

namespace Same

variable {α β : Type} [Blurred α] [Blurred β]

/-- Everything is the same as itself. -/
@[refl] theorem refl (a : α) : Same a a := Eq.refl _

/-- What is the same is so in either order. -/
theorem symm {a b : α} (h : Same a b) : Same b a := Eq.symm h

/-- What is the same as the same thing is the same. -/
theorem trans {a b c : α} (h : Same a b) (h' : Same b c) : Same a c := Eq.trans h h'

/-- What does not depend on places is equal for things that are the same. -/
theorem map_eq {γ : Type} {a b : α} (f : α → γ) (h : Same a b) (hf : ∀ a, f (blur a) = f a) :
    f a = f b := by
  rw [← hf a, ← hf b]
  exact congrArg f h

end Same

/-! ## Plain data -/

instance : Blurred Unit := ⟨id⟩

instance : Blurred Bool := ⟨id⟩

/-- Truth values have no places. -/
@[simp] theorem same_bool {a b : Bool} : Same a b ↔ a = b := Iff.rfl

instance {α : Type} [Blurred α] : Blurred (Option α) := ⟨Option.map blur⟩

instance {α : Type} [Blurred α] : Blurred (List α) := ⟨List.map blur⟩

instance {α β : Type} [Blurred α] [Blurred β] : Blurred (α × β) := ⟨Prod.map blur blur⟩

instance {α : Type} [Blurred α] : Blurred (Grammar.Turn α) where
  blur
    | .stop => .stop
    | .last item => .last (blur item)
    | .more item => .more (blur item)

section

variable {α β : Type} [Blurred α] [Blurred β] {a b : α} {l m : List α}

/-- What is there is the same if the things are. -/
@[simp] theorem same_some : Same (some a) (some b) ↔ Same a b := by simp [Same, blur]

/-- What is missing is not the same as what is there. -/
@[simp] theorem not_same_none_some : ¬ Same none (some a) := by simp [Same, blur]

/-- What is there is not the same as what is missing. -/
@[simp] theorem not_same_some_none : ¬ Same (some a) none := by simp [Same, blur]

/-- Lists are the same item by item. -/
@[simp] theorem same_cons : Same (a :: l) (b :: m) ↔ Same a b ∧ Same l m := by simp [Same, blur]

/-- An empty list is the same as no other. -/
@[simp] theorem not_same_nil_cons : ¬ Same [] (b :: m) := by simp [Same, blur]

/-- No other list is the same as an empty one. -/
@[simp] theorem not_same_cons_nil : ¬ Same (a :: l) [] := by simp [Same, blur]

/-- Pairs are the same part by part. -/
@[simp] theorem same_mk {c d : β} : Same (a, c) (b, d) ↔ Same a b ∧ Same c d := by
  simp [Same, blur, Prod.map]

/-- Last items of a repetition are the same if the items are. -/
@[simp] theorem same_last : Same (Grammar.Turn.last a) (.last b) ↔ Same a b := by
  simp [Same, blur]

/-- Items that others may follow are the same if the items are. -/
@[simp] theorem same_more : Same (Grammar.Turn.more a) (.more b) ↔ Same a b := by
  simp [Same, blur]

/-- Lists that are the same are both empty or neither. -/
theorem Same.isEmpty_eq (h : Same l m) : l.isEmpty = m.isEmpty :=
  h.map_eq List.isEmpty fun _ => List.isEmpty_map

/-- Lists that are the same are of one length. -/
theorem Same.length_eq (h : Same l m) : l.length = m.length :=
  h.map_eq List.length fun _ => List.length_map _

/-- What is the same as a list of one item has one that is the same. -/
theorem Same.singleton (h : Same [a] m) : ∃ b, m = [b] ∧ Same a b := by
  match m with
  | [] => exact absurd h not_same_cons_nil
  | [b] => exact ⟨b, rfl, (same_cons.mp h).1⟩
  | _ :: _ :: _ => exact absurd (same_cons.mp h).2 not_same_nil_cons

/-- Lists that are the same may be put behind lists that are. -/
theorem Same.append {l' m' : List α} (h : Same l m) (h' : Same l' m') :
    Same (l ++ l') (m ++ m') := by
  simp only [Same, blur, List.map_append] at h h' ⊢
  rw [h, h']

/-- Rows without gaps are the same if the rows with gaps are. -/
theorem Same.filterMap_id {l m : List (Option α)} (h : Same l m) :
    Same (l.filterMap id) (m.filterMap id) := by
  induction l generalizing m with
  | nil =>
    cases m with
    | nil => rfl
    | cons b m => exact absurd h not_same_nil_cons
  | cons a l ih =>
    cases m with
    | nil => exact absurd h not_same_cons_nil
    | cons b m =>
      obtain ⟨hab, hlm⟩ := same_cons.mp h
      match a, b with
      | none, none =>
        show Same (l.filterMap id) (m.filterMap id)
        exact ih hlm
      | none, some b => exact absurd hab not_same_none_some
      | some a, none => exact absurd hab not_same_some_none
      | some a, some b => exact same_cons.mpr ⟨same_some.mp hab, ih hlm⟩

end

/-! ## Tokens -/

/-- A token without its place. -/
def Token.blur (token : Token) : Token := { token with start := .start, stop := .start }

instance : Blurred Token := ⟨Token.blur⟩

namespace Same

variable {a b : Token}

/-- Tokens that are the same have the same value. -/
theorem value_eq (h : Same a b) : a.value = b.value := h.map_eq Token.value fun _ => rfl

/-- Tokens that are the same have the same lexeme. -/
theorem lexeme_eq (h : Same a b) : a.lexeme = b.lexeme := h.map_eq Token.lexeme fun _ => rfl

/-- Tokens that are the same both end the input or neither does. -/
theorem isEnd_eq (h : Same a b) : a.isEnd = b.isEnd := by rw [Token.isEnd, Token.isEnd, h.value_eq]

/-- Tokens that are the same are of one kind. -/
theorem kind_eq (h : Same a b) : a.kind = b.kind := by rw [Token.kind, Token.kind, h.value_eq]

/-- Tokens that are the same have the same name, or none. -/
theorem name?_eq (h : Same a b) : a.name? = b.name? := by rw [Token.name?, Token.name?, h.value_eq]

/-- Tokens that are the same are the same symbol, if they are one. -/
theorem isSymbol_eq (h : Same a b) (symbol : Symbol) : a.isSymbol symbol = b.isSymbol symbol := by
  rw [Token.isSymbol, Token.isSymbol, h.value_eq]

/-- Tokens that are the same are the same word, if they are one. -/
theorem isWord_eq (h : Same a b) (word : ReservedWord) : a.isWord word = b.isWord word := by
  rw [Token.isWord, Token.isWord, h.value_eq]

end Same

/-- A token with a name is a name. -/
theorem Token.kind_of_name {token : Token} {name : String} (h : token.name? = some name) :
    token.kind = .identifier := by
  rw [Token.name?] at h
  split at h
  · next hvalue =>
    rw [Token.kind, hvalue]
    rfl
  · cases h

/-- A token of that kind has a name. -/
theorem Token.value_of_kind {token : Token} (h : token.kind = .identifier) :
    ∃ name, token.value = .identifier name := by
  rw [Token.kind] at h
  cases hvalue : token.value with
  | identifier name => exact ⟨name, rfl⟩
  | _ =>
    rw [hvalue] at h
    cases h

/-! ## Trees -/

instance : Blurred Identifier := ⟨Identifier.erase .annotations⟩

instance : Blurred Literal := ⟨Literal.erase .annotations⟩

instance : Blurred TypedIdentifier := ⟨TypedIdentifier.erase .annotations⟩

instance : Blurred Declarator := ⟨Declarator.erase .annotations⟩

instance : Blurred Parameter := ⟨Parameter.erase .annotations⟩

instance : Blurred StructureEntry := ⟨StructureEntry.erase .annotations⟩

instance : Blurred Expression := ⟨Expression.erase .annotations⟩

instance : Blurred Table := ⟨Table.erase .annotations⟩

instance : Blurred TableField := ⟨TableField.erase .annotations⟩

instance : Blurred MakeField := ⟨MakeField.erase .annotations⟩

instance : Blurred Function := ⟨Function.erase .annotations⟩

instance : Blurred Block := ⟨Block.erase .annotations⟩

instance : Blurred Clause := ⟨Clause.erase .annotations⟩

instance : Blurred Statement := ⟨Statement.erase .annotations⟩

instance : Blurred Chunk where
  blur chunk :=
    { body := chunk.body.erase .annotations, comments := none, globals := none, placement := .none }

/-- Names that are the same are spelled alike. -/
theorem Same.name_eq {a b : Identifier} (h : Same a b) : a.name = b.name :=
  h.map_eq Identifier.name fun _ => rfl

/-- Names are the same if they are spelled the same. -/
theorem same_identifier {a b : Identifier} : Same a b ↔ a.name = b.name := by
  simp [Same, blur, Identifier.erase, Erasure.annotations]

/-- Declared names without types are the same if the names are. -/
@[simp] theorem same_plain {a b : Identifier} :
    Same (Declarator.plain a) (.plain b) ↔ Same a b := by
  simp [Same, blur, Declarator.erase]

/-- Declared names with types are the same if names and types are. -/
@[simp] theorem same_typed {a b : TypedIdentifier} :
    Same (Declarator.typed a) (.typed b) ↔ Same a b := by
  simp [Same, blur, Declarator.erase]

/-- Typed names are the same if their names and their types are. -/
theorem same_typedIdentifier {name name' type type' : Identifier} {placement placement' : Placement} :
    Same (TypedIdentifier.mk name type placement) ⟨name', type', placement'⟩ ↔
      Same name name' ∧ Same type type' := by
  simp [Same, blur, TypedIdentifier.erase, Erasure.annotations]

/-- Expressions that are the same are both calls or neither is. -/
theorem Same.isCall_eq {a b : Expression} (h : Same a b) : a.isCall = b.isCall :=
  h.map_eq Expression.isCall (Expression.isCall_erase _)

/-- Expressions that are the same may both be assigned or neither may. -/
theorem Same.isAssignable_eq {a b : Expression} (h : Same a b) :
    a.isAssignable = b.isAssignable :=
  h.map_eq Expression.isAssignable (Expression.isAssignable_erase _)

/-- What is declared the same has the same name. -/
theorem Same.identifier {a b : Declarator} (h : Same a b) : Same a.identifier b.identifier := by
  have := congrArg Declarator.identifier (show blur a = blur b from h)
  simpa only [Same, blur, Declarator.identifier_erase] using this

/-- A declared name is the same if its name is replaced by the same. -/
theorem Same.withIdentifier {a b : Declarator} {name name' : Identifier} (h : Same a b)
    (hname : Same name name') : Same (a.withIdentifier name) (b.withIdentifier name') := by
  simp only [Same, blur, Declarator.withIdentifier_erase] at h hname ⊢
  rw [h, hname]

end LuaSyntax
