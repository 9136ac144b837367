import LuaSyntax.Token.Replay

/-!
# Replaying what was read

Deliveries are kept as their tokens and, apart from them, their comments, each marked with the number
of the token that it stands before. A replay of the two gives the deliveries back.
-/

namespace LuaSyntax

namespace Replay

variable {deliveries : List Delivery}

/-- The comments of some deliveries, marked with the numbers of their tokens. -/
def marked : Nat → List Delivery → List (Nat × Comment)
  | _, [] => []
  | first, delivery :: others => delivery.comments.map (first, ·) ++ marked (first + 1) others

/-- Deliveries are marked one part behind the other. -/
theorem marked_append (first : Nat) (deliveries others : List Delivery) :
    marked first (deliveries ++ others) =
      marked first deliveries ++ marked (first + deliveries.length) others := by
  induction deliveries generalizing first with
  | nil => simp [marked]
  | cons delivery deliveries ih =>
    simp only [List.cons_append, marked, ih, List.append_assoc, List.length_cons]
    rw [Nat.add_assoc, Nat.add_comm 1]

/-- Comments are marked with a token no earlier than the first. -/
theorem le_of_mem_marked {first : Nat} {comment : Nat × Comment}
    (h : comment ∈ marked first deliveries) : first ≤ comment.1 := by
  induction deliveries generalizing first with
  | nil => cases h
  | cons delivery deliveries ih =>
    rw [marked, List.mem_append, List.mem_map] at h
    rcases h with ⟨_, -, rfl⟩ | h
    · exact Nat.le_refl _
    · exact Nat.le_of_succ_le (ih h)

/-- Those comments are released whose token was handed out, if they stand before the others. -/
theorem drain_split {replay : Replay} {due later : List (Nat × Comment)}
    (h : replay.comments = due ++ later) (hdue : ∀ comment ∈ due, comment.1 < replay.count)
    (hlater : ∀ comment ∈ later, replay.count ≤ comment.1) :
    replay.drain = (due.map Prod.snd, { replay with comments := later }) := by
  have htake : replay.comments.takeWhile replay.isDue = due := by
    rw [h, List.takeWhile_append_of_pos fun comment hc => by
      simpa [isDue] using hdue comment hc]
    cases later with
    | nil => simp
    | cons comment later =>
      rw [List.takeWhile_cons_of_neg, List.append_nil]
      simpa [isDue] using hlater comment List.mem_cons_self
  have hdrop : replay.comments.dropWhile replay.isDue = later := by
    rw [h, List.dropWhile_append_of_pos fun comment hc => by
      simpa [isDue] using hdue comment hc]
    cases later with
    | nil => rfl
    | cons comment later =>
      rw [List.dropWhile_cons_of_neg]
      simpa [isDue] using hlater comment List.mem_cons_self
  rw [drain, htake, hdrop]

/-- The comments that are marked with one token are released with it. -/
theorem deliver_marked (replay : Replay) {comments : List Comment}
    {later : List (Nat × Comment)}
    (hended : replay.ended = false)
    (h : replay.comments = comments.map (replay.count, ·) ++ later)
    (hlater : ∀ comment ∈ later, replay.count < comment.1) :
    replay.deliver =
      (⟨replay.next.1, comments⟩,
        { replay.next.2 with comments := later }) := by
  have hcount : replay.next.2.count = replay.count + 1 := by
    rw [next]
    split
    · rfl
    · rw [if_neg (by simp [hended])]
  have hkept : replay.next.2.comments = replay.comments := by
    rw [next]
    split
    · rfl
    · rw [if_neg (by simp [hended])]
  have hdue : ∀ comment ∈ comments.map (replay.count, ·), comment.1 < replay.next.2.count := by
    intro comment hc
    obtain ⟨_, -, rfl⟩ := List.mem_map.mp hc
    rw [hcount]
    exact Nat.lt_succ_self _
  have hothers : ∀ comment ∈ later, replay.next.2.count ≤ comment.1 := by
    intro comment hc
    rw [hcount]
    exact hlater comment hc
  have hdrain := drain_split (hkept.trans h) hdue hothers
  have hvalues : (comments.map (replay.count, ·)).map Prod.snd = comments := by
    rw [List.map_map]
    exact List.map_id comments
  rw [hvalues] at hdrain
  simp only [deliver, hdrain]

/-- Deliveries that were kept are delivered again. -/
theorem deliveries_marked {count total : Nat} {trailing : List Comment} {ending : Token}
    (h : count + deliveries.length = total) :
    Replay.deliveries deliveries.length
        { tokens := deliveries.map Delivery.token
          comments := marked count deliveries ++ trailing.map (total, ·)
          ending
          count } =
      (deliveries,
        { tokens := [], comments := trailing.map (total, ·), ending, count := total }) := by
  induction deliveries generalizing count with
  | nil =>
    obtain rfl : count = total := h
    rfl
  | cons delivery others ih =>
    rw [List.length_cons] at h
    have hlater : ∀ comment ∈ marked (count + 1) others ++ trailing.map (total, ·),
        count < comment.1 := by
      intro comment hc
      rcases List.mem_append.mp hc with hc | hc
      · exact le_of_mem_marked hc
      · obtain ⟨_, -, rfl⟩ := List.mem_map.mp hc
        simp only
        omega
    have hstep := deliver_marked
      { tokens := (delivery :: others).map Delivery.token
        comments := marked count (delivery :: others) ++ trailing.map (total, ·)
        ending
        count }
      rfl (List.append_assoc ..) hlater
    rw [List.length_cons, Replay.deliveries, hstep]
    simp only [List.map_cons, next]
    rw [ih (by omega)]

/-- The feed of deliveries that were kept is those deliveries, and then the end. -/
theorem feed_marked (deliveries : List Delivery) (trailing : List Comment) (ending : Token) :
    feed
        { tokens := deliveries.map Delivery.token
          comments := marked 0 deliveries ++ trailing.map (deliveries.length, ·)
          ending } =
      ⟨deliveries, .ok ⟨ending, trailing⟩⟩ := by
  have hending := deliver_marked
    { tokens := [], comments := trailing.map (deliveries.length, ·), ending, count := deliveries.length }
    rfl (List.append_nil _).symm (by simp)
  simp only [feed, List.length_map, deliveries_marked (Nat.zero_add _), hending]
  rfl

end Replay

end LuaSyntax
