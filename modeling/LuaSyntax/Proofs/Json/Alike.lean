import Mathlib.Data.Option.Basic
import LuaSyntax.Json.Value

/-!
# Equal JSON values

Whoever reads a JSON object back finds its members by their names, in whatever order they were written. So two values are
told apart only up to that order: `JsonValue.Alike` says that two values are equal but for the order of the members of the
objects in them.

An object can be compared member by member: if a name stands at most once in an object then its values in two objects that
are alike are alike, and so are the two objects without it.
-/

namespace LuaSyntax

namespace JsonValue

mutual

/-- Whether two values are equal but for the order in which members are written. -/
inductive Alike : JsonValue → JsonValue → Prop where
  | null : Alike .null .null
  | bool (value : Bool) : Alike (.bool value) (.bool value)
  | count (value : Nat) : Alike (.count value) (.count value)
  | float (value : Float) : Alike (.float value) (.float value)
  | text (value : String) : Alike (.text value) (.text value)
  | list {items others : List JsonValue} (h : ItemsAlike items others) : Alike (.list items) (.list others)
  | object {members ordered others : List (String × JsonValue)} (hperm : members.Perm ordered)
      (h : MembersAlike ordered others) : Alike (.object members) (.object others)

/-- Whether two rows have items that are alike. -/
inductive ItemsAlike : List JsonValue → List JsonValue → Prop where
  | nil : ItemsAlike [] []
  | cons {a b : JsonValue} {items others : List JsonValue} (h : Alike a b) (hrest : ItemsAlike items others) :
      ItemsAlike (a :: items) (b :: others)

/-- Whether two rows have members of the same names with values that are alike. -/
inductive MembersAlike : List (String × JsonValue) → List (String × JsonValue) → Prop where
  | nil : MembersAlike [] []
  | cons {a b : JsonValue} {members others : List (String × JsonValue)} (name : String) (h : Alike a b)
      (hrest : MembersAlike members others) : MembersAlike ((name, a) :: members) ((name, b) :: others)

end

/-! ## Equal values -/

mutual

/-- Every JSON value is like itself. -/
@[refl, simp] theorem Alike.refl : (value : JsonValue) → Alike value value
  | .null => .null
  | .bool value => .bool value
  | .count value => .count value
  | .float value => .float value
  | .text value => .text value
  | .list items => .list (ItemsAlike.refl items)
  | .object members => .object (.refl _) (MembersAlike.refl members)

/-- Every list of JSON values is like itself. -/
@[simp] theorem ItemsAlike.refl : (items : List JsonValue) → ItemsAlike items items
  | [] => .nil
  | item :: items => .cons (Alike.refl item) (ItemsAlike.refl items)

/-- All members of an object are like themselves. -/
theorem MembersAlike.refl : (members : List (String × JsonValue)) → MembersAlike members members
  | [] => .nil
  | (name, value) :: members => .cons name (Alike.refl value) (MembersAlike.refl members)

end

variable {a b : JsonValue} {items others : List JsonValue}

/-- Only the same text is like a text. -/
@[simp] theorem alike_text {s t : String} : Alike (.text s) (.text t) ↔ s = t :=
  ⟨fun h => by cases h; rfl, fun h => h ▸ .text _⟩

/-- Only the same truth value is like a truth value. -/
@[simp] theorem alike_bool {s t : Bool} : Alike (.bool s) (.bool t) ↔ s = t :=
  ⟨fun h => by cases h; rfl, fun h => h ▸ .bool _⟩

/-- Only the same count is like a count. -/
@[simp] theorem alike_count {s t : Nat} : Alike (.count s) (.count t) ↔ s = t :=
  ⟨fun h => by cases h; rfl, fun h => h ▸ .count _⟩

/-- Only the same number is like a number. -/
@[simp] theorem alike_float {s t : Float} : Alike (.float s) (.float t) ↔ s = t :=
  ⟨fun h => by cases h; rfl, fun h => h ▸ .float _⟩

/-- Lists are alike if their items are, in their order. -/
@[simp] theorem alike_list : Alike (.list items) (.list others) ↔ ItemsAlike items others :=
  ⟨fun h => by cases h; assumption, .list⟩

/-- Items are alike one by one. -/
@[simp] theorem itemsAlike_cons : ItemsAlike (a :: items) (b :: others) ↔ Alike a b ∧ ItemsAlike items others :=
  ⟨fun h => by cases h; exact ⟨‹_›, ‹_›⟩, fun h => .cons h.1 h.2⟩

/-! ## Members -/

/-- Whether no member has a name. -/
def Fresh (name : String) (members : List (String × JsonValue)) : Prop := name ∉ members.map Prod.fst

variable {name other : String} {members behind : List (String × JsonValue)} {value value' : Option JsonValue}

/-- Every name is fresh where there are no members. -/
@[simp] theorem fresh_nil : Fresh name [] := List.not_mem_nil

/-- A name is fresh if no member has it. -/
@[simp] theorem fresh_cons : Fresh name ((other, a) :: members) ↔ name ≠ other ∧ Fresh name members := by
  simp only [Fresh, List.map_cons, List.mem_cons, not_or, ne_eq]

/-- A name is fresh among two groups of members if it is so in each. -/
@[simp] theorem fresh_append : Fresh name (members ++ behind) ↔ Fresh name members ∧ Fresh name behind := by
  simp only [Fresh, List.map_append, List.mem_append, not_or]

/-- A name is fresh beside a member of another name. -/
@[simp] theorem fresh_member? (hname : name ≠ other) : Fresh name (member? other value) := by
  cases value with
  | none => exact fresh_nil
  | some value => exact fresh_cons.mpr ⟨hname, fresh_nil⟩

/-- Members that are alike in their order have the same names. -/
theorem MembersAlike.names_eq : {members others : List (String × JsonValue)} →
    MembersAlike members others → members.map Prod.fst = others.map Prod.fst
  | _, _, .nil => rfl
  | _, _, .cons name _ hrest => congrArg (name :: ·) hrest.names_eq

/-- Objects that are alike have members of the same names, in any order. -/
theorem Alike.names_perm {others : List (String × JsonValue)} (h : Alike (.object members) (.object others)) :
    (members.map Prod.fst).Perm (others.map Prod.fst) := by
  cases h with
  | object hperm h => exact h.names_eq ▸ hperm.map Prod.fst

/-- Objects that begin with members of the same name are alike if these are alike and all others are. -/
@[simp] theorem alike_cons (hfresh : Fresh name members) {others : List (String × JsonValue)} :
    Alike (.object ((name, a) :: members)) (.object ((name, b) :: others)) ↔
      Alike a b ∧ Alike (.object members) (.object others) := by
  constructor
  · intro h
    cases h with
    | object hperm h =>
      cases h with
      | @cons c _ ordered _ _ h hrest =>
        -- The only member of that name is the one in front.
        have hmem : (name, c) ∈ (name, a) :: members := hperm.mem_iff.mpr (List.mem_cons_self ..)
        rcases List.mem_cons.mp hmem with heq | hmem
        · cases heq
          exact ⟨h, .object hperm.cons_inv hrest⟩
        · exact absurd (List.mem_map_of_mem hmem) hfresh
  · rintro ⟨h, hrest⟩
    cases hrest with
    | object hperm hrest => exact .object (hperm.cons _) (.cons name h hrest)

/-- Objects in which a member may be absent are alike if both have it or neither, and all others are alike. -/
@[simp] theorem alike_member? (hfresh : Fresh name members) {others : List (String × JsonValue)} (hfresh' : Fresh name others) :
    Alike (.object (member? name value ++ members)) (.object (member? name value' ++ others)) ↔
      Option.Rel Alike value value' ∧ Alike (.object members) (.object others) := by
  cases value with
  | none =>
    cases value' with
    | none => exact ⟨fun h => ⟨.none, h⟩, fun h => h.2⟩
    | some b =>
      refine ⟨fun h => absurd (h.names_perm.mem_iff.mpr (List.mem_cons_self ..)) hfresh, fun h => ?_⟩
      cases h.1
  | some a =>
    cases value' with
    | none =>
      refine ⟨fun h => absurd (h.names_perm.mem_iff.mp (List.mem_cons_self ..)) hfresh', fun h => ?_⟩
      cases h.1
    | some b =>
      refine (alike_cons hfresh).trans (and_congr_left' ⟨.some, fun h => ?_⟩)
      cases h
      assumption

/-- Objects of one member that may be missing are alike if both miss it or their values are alike. -/
@[simp] theorem alike_lone_member? :
    Alike (.object (member? name value)) (.object (member? name value')) ↔ Option.Rel Alike value value' := by
  have h : Alike (.object (member? name value ++ [])) (.object (member? name value' ++ [])) ↔
      Option.Rel Alike value value' ∧ Alike (.object []) (.object []) := alike_member? fresh_nil fresh_nil
  rw [List.append_nil, List.append_nil] at h
  exact h.trans (and_iff_left (Alike.refl _))

/-! ## Rows -/

variable {α : Type} {write : α → JsonValue}

/-- What is told by what is written of it is told where it may be absent. -/
theorem eq_of_optionRel {o o' : Option α} (hwrite : ∀ a ∈ o, ∀ b ∈ o', Alike (write a) (write b) → a = b)
    (h : Option.Rel Alike (o.map write) (o'.map write)) : o = o' := by
  cases o <;> cases o' <;> cases h
  · rfl
  · next h => exact congrArg some (hwrite _ rfl _ rfl h)

/-- What is told by what is written of it is told in a row. -/
theorem eq_of_itemsAlike {items others : List α} (hwrite : ∀ a ∈ items, ∀ b ∈ others, Alike (write a) (write b) → a = b)
    (h : ItemsAlike (items.map write) (others.map write)) : items = others := by
  induction items generalizing others with
  | nil =>
    cases others with
    | nil => rfl
    | cons => cases h
  | cons a items ih =>
    cases others with
    | nil => cases h
    | cons b others =>
      cases h with
      | cons h hrest =>
        rw [hwrite a (List.mem_cons_self ..) b (List.mem_cons_self ..) h,
          ih (fun a ha b hb => hwrite a (List.mem_cons_of_mem _ ha) b (List.mem_cons_of_mem _ hb)) hrest]

end JsonValue

end LuaSyntax
