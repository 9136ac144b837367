import Mathlib.Data.List.TakeWhile
import LuaSyntax.Proofs.Grammar.Sound.Chunk
import LuaSyntax.Proofs.Writing.Carried.Statement

/-!
# What stands behind operators

In a source that is accepted an expression begins behind every operator that stands between two operands. A row
of tokens that writes a chunk is carried over to itself, and on the way nothing else is gone past.
-/

namespace LuaSyntax

/-- Whether a token may stand behind another one: behind an operator between operands an expression begins. -/
def Token.MayFollow (before token : Token) : Prop :=
  (Operator.ofToken? before.value).isSome = true → token.startsExpression = true

namespace Point

/-- A point behind another, with nothing between them that may not stand there. -/
inductive Along : Point → Point → Prop where
  | refl (p : Point) : Along p p
  | step {p q : Point} : Along p q → q.token.MayFollow q.step.token → Along p q.step

variable {p q : Point}

/-- The tokens that are left and the end of the row. -/
def remaining (p : Point) : List Token := p.rest ++ [p.last]

/-- Along a row nothing stands where it may not. -/
theorem Along.isChain (h : p.Along q) (hq : q.remaining.IsChain Token.MayFollow) :
    p.remaining.IsChain Token.MayFollow := by
  induction h with
  | refl => exact hq
  | @step q hpq hfollow ih =>
    refine ih ?_
    obtain ⟨previous, rest, last, hlast⟩ := q
    cases rest with
    | nil => exact hq
    | cons token rest =>
      cases rest with
      | nil => exact .cons_cons hfollow hq
      | cons next rest => exact .cons_cons hfollow hq

/-- A row is carried over to itself as far as it goes on as it may. -/
theorem carries_along (dialect : Dialect) (start : Point) :
    Carries dialect dialect fun p p' => p' = p ∧ start.Along p where
  features _ _ := rfl
  typed htyped := htyped
  value h := h.1 ▸ rfl
  lexeme h := h.1 ▸ rfl
  ahead h := h.1 ▸ rfl
  line _ h _ hline := h.1 ▸ hline
  step h hstarts := ⟨h.1 ▸ rfl, h.2.step hstarts⟩

end Point

/-- In tokens that write a chunk, an expression begins behind every operator between operands. -/
theorem Chunk.Written.isChain {dialect : Dialect} {depth : Nat} {chunk : Chunk} {p q : Point}
    (h : chunk.Written dialect depth p q) (hq : q.rest = []) : p.remaining.IsChain Token.MayFollow := by
  obtain ⟨q', ⟨rfl, halong⟩, -⟩ := h.carried (Point.carries_along dialect p) ⟨rfl, .refl p⟩
  refine halong.isChain ?_
  rw [Point.remaining, hq]
  exact .singleton _

/-- In an accepted source an expression begins behind every operator between operands. -/
theorem Grammar.isChain_of_accepted {options : ParseOptions} {source : Text} {deliveries : List Delivery}
    {last : Delivery} {chunk : Chunk} (hlast : last.token.isEnd = true)
    (hdeliveries : ∀ delivery ∈ deliveries, delivery.token.isEnd = false)
    (h : (run options source ⟨deliveries, .ok last⟩).result = .ok chunk) :
    (deliveries.map Delivery.token ++ [last.token]).IsChain Token.MayFollow := by
  obtain ⟨⟨q, hwritten, hrest⟩, -⟩ := run_reads hlast h
  refine hwritten.isChain (hrest.trans (List.dropWhile_eq_nil_iff.mpr fun token hmem => ?_))
  obtain ⟨delivery, hdelivery, rfl⟩ := List.mem_map.mp hmem
  rw [hdeliveries delivery hdelivery, Bool.not_false]

end LuaSyntax
