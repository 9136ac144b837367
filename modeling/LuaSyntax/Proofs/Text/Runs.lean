import Mathlib.Data.List.Basic
import LuaSyntax.Text.Digit
import LuaSyntax.Text.Basic
import LuaSyntax.Proofs.Text.Growth

/-!
# Runs and line breaks, told by what follows them

The readers take as much as they can: a run of digits, a line break of two characters. What they take is told here by
its own characters and the first one that is left, so a text can be said to be a run or a break where it stands.

If a run was found not to go beyond a certain text then it does not with anything else behind that text, as
long as this begins with something that can be no part of the run. A space or a tab can be no part of most
runs, and the end of a source is none either.
-/

namespace LuaSyntax.Text

variable {text run rest behind : Text} {p : Char → Bool}

/-- A text is the run that is read there if it is made of such characters and no other one follows. -/
theorem takeWhile_append_iff :
    (run ++ rest).takeWhile p = run ↔ (∀ c ∈ run, p c = true) ∧ ∀ c ∈ rest.head?, p c = false := by
  induction run with
  | nil => cases rest <;> simp [List.takeWhile_cons]
  | cons c run ih =>
    cases hc : p c with
    | false => simp [hc]
    | true => simp [hc, ih]

/-- The same of a run of at most so many characters. -/
theorem takeWhile_take_append_iff {most : Nat} :
    ((run ++ rest).take most).takeWhile p = run ↔
      run.length ≤ most ∧ (∀ c ∈ run, p c = true) ∧ (run.length < most → ∀ c ∈ rest.head?, p c = false) := by
  rcases Nat.lt_or_ge most run.length with hlong | hshort
  · refine iff_of_false (fun h => ?_) (fun h => by omega)
    have hle := (List.takeWhile_prefix p (l := (run ++ rest).take most)).length_le
    rw [h, List.length_take] at hle
    omega
  · rw [List.take_append, List.take_of_length_le hshort, takeWhile_append_iff, List.head?_take]
    by_cases hfull : most - run.length = 0
    · simp [hfull, hshort, show ¬ run.length < most by omega]
    · simp [hfull, hshort, show run.length < most by omega]

/-- A front of a text is known by its length. -/
theorem eq_of_prefix_append {front : Text} (h : front <+: run ++ rest) (hlength : front.length = run.length) :
    front = run :=
  (List.prefix_of_prefix_length_le h (List.prefix_append run rest) (Nat.le_of_eq hlength)).eq_of_length hlength

/-- A run ends where its characters are all of a kind and the next is not. -/
theorem length_takeWhile_append_iff :
    ((run ++ rest).takeWhile p).length = run.length ↔
      (∀ c ∈ run, p c = true) ∧ ∀ c ∈ rest.head?, p c = false := by
  rw [← takeWhile_append_iff]
  exact ⟨eq_of_prefix_append (List.takeWhile_prefix p), congrArg List.length⟩

/-- The line breaks: each of the two line ends, or one and then the other. -/
def lineBreaks : List Text := [['\n'], ['\r'], ['\r', '\n'], ['\n', '\r']]

/-- A line break of one character is the end of a line. -/
theorem one_mem_lineBreaks {c : Char} : [c] ∈ lineBreaks ↔ isLineEnd c = true := by
  simp [lineBreaks, isLineEnd]

/-- A line break of two characters is two different ends of a line. -/
theorem two_mem_lineBreaks {c d : Char} :
    [c, d] ∈ lineBreaks ↔ isLineEnd c = true ∧ (isLineEnd d && d != c) = true := by
  simp only [lineBreaks, isLineEnd, List.mem_cons, List.cons.injEq, Bool.or_eq_true, Bool.and_eq_true, beq_iff_eq,
    bne_iff_ne]
  constructor
  · rintro (⟨-, h⟩ | ⟨-, h⟩ | ⟨rfl, rfl, -⟩ | ⟨rfl, rfl, -⟩ | h)
    · cases h
    · cases h
    · decide
    · decide
    · cases h
  · rintro ⟨rfl | rfl, rfl | rfl, hne⟩
    · exact absurd rfl hne
    · simp
    · simp
    · exact absurd rfl hne

/-- Line breaks are made of line ends. -/
theorem isLineEnd_of_mem_lineBreaks (h : run ∈ lineBreaks) : ∀ c ∈ run, isLineEnd c = true := by
  revert run
  simp [lineBreaks, isLineEnd]

/-- No line break is empty. -/
theorem ne_nil_of_mem_lineBreaks (h : run ∈ lineBreaks) : run ≠ [] := by
  revert run
  decide

/-- A line break has two characters at most. -/
theorem length_le_of_mem_lineBreaks (h : run ∈ lineBreaks) : run.length ≤ 2 := by
  revert run
  decide

/-- A text is the line break that is read there, or nothing if there is none, if what follows does not go on with
it. -/
theorem lineBreak_append_iff :
    lineBreak (run ++ rest) = run.length ↔
      (run = [] ∨ run ∈ lineBreaks) ∧ ∀ c ∈ rest.head?, run ++ [c] ∉ lineBreaks := by
  have hthree (c d e : Char) (more : Text) : c :: d :: e :: more ∉ lineBreaks := fun h => by
    have := length_le_of_mem_lineBreaks h
    simp at this
  match run, rest with
  | [], [] => simp [lineBreak]
  | [], [c] => cases hc : isLineEnd c <;> simp [lineBreak, one_mem_lineBreaks, hc]
  | [], c :: d :: rest =>
    simp only [lineBreak, List.nil_append, List.length_nil, List.head?_cons, Option.mem_some_iff, forall_eq',
      one_mem_lineBreaks, true_or, true_and]
    cases isLineEnd c with
    | false => simp
    | true => cases (isLineEnd d && d != c) <;> simp
  | [c], [] => simp [lineBreak, one_mem_lineBreaks]
  | [c], d :: rest =>
    simp only [lineBreak, List.cons_append, List.nil_append, List.length_cons, List.length_nil, List.head?_cons,
      Option.mem_some_iff, forall_eq', one_mem_lineBreaks, two_mem_lineBreaks, List.cons_ne_nil, false_or]
    cases isLineEnd c with
    | false => simp
    | true => cases (isLineEnd d && d != c) <;> simp
  | [c, d], rest =>
    simp only [lineBreak, List.cons_append, List.nil_append, List.length_cons, List.length_nil, hthree,
      two_mem_lineBreaks, List.cons_ne_nil, false_or, not_false_eq_true, implies_true, and_true]
    cases isLineEnd c with
    | false => simp
    | true => cases (isLineEnd d && d != c) <;> simp
  | c :: d :: e :: run, rest =>
    refine iff_of_false (fun h => ?_) (fun h => by simp [hthree] at h)
    simp only [lineBreak, List.cons_append, List.length_cons] at h
    split at h
    · split at h <;> omega
    · omega

/-! ## Texts that stand apart -/

/-- A text that keeps what stands before it apart: it begins with a space or a tab, or there is none. -/
def Apart (behind : Text) : Prop := ∀ c ∈ behind.head?, c ∈ [' ', '\t']

/-- The empty text stands apart. -/
theorem apart_nil : Apart [] := fun _ hmem => by cases hmem

/-- What holds of a space and of a tab holds of every character that keeps apart. -/
theorem forall_space_tab {q : Char → Prop} (hspace : q ' ') (htab : q '\t') : ∀ c ∈ [' ', '\t'], q c :=
  List.forall_mem_cons.mpr ⟨hspace, List.forall_mem_singleton.mpr htab⟩

/-- A run that ends with a text or inside it ends there with anything behind the text that is no part of it. -/
theorem takeWhile_append_congr (hbehind : ∀ c ∈ behind.head?, p c = false)
    (h : ((text ++ rest).takeWhile p).length ≤ text.length) :
    (text ++ behind).takeWhile p = (text ++ rest).takeWhile p := by
  induction text with
  | nil =>
    rw [List.nil_append] at h ⊢
    rw [List.nil_append, List.eq_nil_of_length_eq_zero (Nat.le_zero.mp h)]
    cases behind with
    | nil => rfl
    | cons c behind => exact List.takeWhile_cons_of_neg (Bool.eq_false_iff.mp (hbehind c rfl))
  | cons c text ih =>
    rw [List.cons_append, List.cons_append]
    cases hc : p c with
    | false =>
      rw [List.takeWhile_cons_of_neg (Bool.eq_false_iff.mp hc),
        List.takeWhile_cons_of_neg (Bool.eq_false_iff.mp hc)]
    | true =>
      rw [List.cons_append, List.takeWhile_cons_of_pos hc, List.length_cons, List.length_cons] at h
      rw [List.takeWhile_cons_of_pos hc, List.takeWhile_cons_of_pos hc, ih (Nat.le_of_succ_le_succ h)]

/-- A run that ends with a text or inside it ends there if the text stands apart. -/
theorem takeWhile_apart (hbehind : Apart behind) (hp : ∀ c ∈ [' ', '\t'], p c = false)
    (h : ((text ++ rest).takeWhile p).length ≤ text.length) :
    (text ++ behind).takeWhile p = (text ++ rest).takeWhile p :=
  takeWhile_append_congr (fun c hmem => hp c (hbehind c hmem)) h

/-- A run ends with a text before something that is no part of it. -/
theorem takeWhile_append_cons {c : Char} (h : p c = false) (text rest : Text) :
    (text ++ c :: rest).takeWhile p = text.takeWhile p := by
  induction text with
  | nil => exact List.takeWhile_cons_of_neg (Bool.eq_false_iff.mp h)
  | cons d text ih => rw [List.cons_append, List.takeWhile_cons, List.takeWhile_cons, ih]

/-- Of a run in the first characters of a text the same holds. -/
theorem takeWhile_take_append_cons {c : Char} (h : p c = false) (count : Nat) (text rest : Text) :
    ((text ++ c :: rest).take count).takeWhile p = (text.take count).takeWhile p := by
  rw [List.take_append]
  cases hleft : count - text.length with
  | zero => rw [List.take_zero, List.append_nil]
  | succ left => rw [List.take_succ_cons, takeWhile_append_cons h]

end LuaSyntax.Text
