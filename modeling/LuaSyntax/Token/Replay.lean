import LuaSyntax.Token.Feed

/-!
# Replaying tokens

Tokens that were read earlier, handed out again. Each comment is marked with the number of the token
that it stands before, and is released once that token was handed out. Comments are released in the
order in which they are kept, so one whose token has not come holds back those behind it. Behind the
last token the end of the input is handed out, as often as it is asked for.
-/

namespace LuaSyntax

/-- Tokens to hand out, and the comments between them. -/
structure Replay where
  /-- The tokens that were not handed out yet. -/
  tokens : List Token
  /-- The comments that were not released yet, each with the number of the token behind it. -/
  comments : List (Nat × Comment)
  /-- What is handed out behind the last token. -/
  ending : Token
  /-- How many tokens were handed out; the end of the input counts once. -/
  count : Nat := 0
  /-- Whether the end of the input was handed out. -/
  ended : Bool := false

namespace Replay

/-- Hands out a token. -/
def next (replay : Replay) : Token × Replay :=
  match replay.tokens with
  | token :: tokens => (token, { replay with tokens, count := replay.count + 1 })
  | [] =>
    if replay.ended then (replay.ending, replay)
    else (replay.ending, { replay with count := replay.count + 1, ended := true })

/-- Whether the token behind a comment was handed out. -/
def isDue (replay : Replay) (comment : Nat × Comment) : Bool := comment.1 < replay.count

/-- Releases comments. -/
def drain (replay : Replay) : List Comment × Replay :=
  ((replay.comments.takeWhile replay.isDue).map Prod.snd,
    { replay with comments := replay.comments.dropWhile replay.isDue })

/-- Hands out a token and releases comments. -/
def deliver (replay : Replay) : Delivery × Replay :=
  let (token, replay) := replay.next
  let (comments, replay) := replay.drain
  (⟨token, comments⟩, replay)

/-- The deliveries of some more tokens, and what is left behind them. -/
def deliveries : Nat → Replay → List Delivery × Replay
  | 0, replay => ([], replay)
  | count + 1, replay =>
    let (delivery, replay) := replay.deliver
    let (others, replay) := deliveries count replay
    (delivery :: others, replay)

/-- The feed of a replay. -/
def feed (replay : Replay) : Feed :=
  let (deliveries, rest) := deliveries replay.tokens.length replay
  ⟨deliveries, .ok rest.deliver.1⟩

end Replay

end LuaSyntax
