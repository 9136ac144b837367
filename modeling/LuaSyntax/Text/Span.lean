/-!
# Spans

A half-open interval of byte offsets. Tokens, nodes and comments say with a span where they stand.
-/

namespace LuaSyntax

/-- The byte offsets from `start` up to, and without, `stop`. They have no bound of their own; those of
a source of less than `2 ^ 32 - 1` bytes fit into 32 bits, as the places that they are taken from do. -/
structure Span where
  start : Nat
  stop : Nat
  deriving DecidableEq, Repr, Inhabited

namespace Span

/-- The span of nothing at an offset. -/
def emptyAt (offset : Nat) : Span := ⟨offset, offset⟩

/-- The number of bytes spanned. -/
def length (span : Span) : Nat := span.stop - span.start

/-- Whether nothing is spanned. -/
def isEmpty (span : Span) : Bool := span.start == span.stop

/-- Whether the byte at `offset` lies in the span. -/
def contains (span : Span) (offset : Nat) : Bool := span.start ≤ offset && offset < span.stop

/-- The least span that holds both. -/
def cover (a b : Span) : Span := ⟨min a.start b.start, max a.stop b.stop⟩

/-- The text of a span as a half-open interval. -/
def interval (span : Span) : String :=
  let start := toString span.start
  let stop := toString span.stop
  s!"[{start}, {stop})"

/-- The short text of a span. -/
def dotted (span : Span) : String :=
  let start := toString span.start
  let stop := toString span.stop
  s!"{start}..{stop}"

/-- A span that covers two contains what the first does. -/
theorem contains_cover_left {a b : Span} {offset : Nat} (h : a.contains offset = true) :
    (a.cover b).contains offset = true := by
  simp only [contains, Bool.and_eq_true, decide_eq_true_eq] at h ⊢
  exact ⟨Nat.le_trans (Nat.min_le_left ..) h.1, Nat.lt_of_lt_of_le h.2 (Nat.le_max_left ..)⟩

/-- A span that covers two contains what the second does. -/
theorem contains_cover_right {a b : Span} {offset : Nat} (h : b.contains offset = true) :
    (a.cover b).contains offset = true := by
  simp only [contains, Bool.and_eq_true, decide_eq_true_eq] at h ⊢
  exact ⟨Nat.le_trans (Nat.min_le_right ..) h.1, Nat.lt_of_lt_of_le h.2 (Nat.le_max_right ..)⟩

end Span

end LuaSyntax
