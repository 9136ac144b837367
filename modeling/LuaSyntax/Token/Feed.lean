import LuaSyntax.Placement
import LuaSyntax.Diagnostic.ParseError
import LuaSyntax.Token.Basic

/-!
# Feeds

The grammar takes tokens from a feed, one at a time, each with the comments that stand between it and
the token before. A feed is finite data: the tokens in order, and how it ends. At its end it either
gives the end of the input, as often as it is asked, or fails, always in the same way. Where the
tokens come from is not the grammar's business: a feed may have been read from a source or put
together from tokens kept from before.
-/

namespace LuaSyntax

/-- A token and the comments before it. -/
structure Delivery where
  token : Token
  comments : List Comment := []

/-- The tokens that a grammar can take. -/
structure Feed where
  /-- The deliveries before the end. -/
  deliveries : List Delivery
  /-- What is delivered then. -/
  ending : Except ParseError Delivery

namespace Feed

/-- The next delivery and the feed behind it. Comments before the end are delivered once. -/
def next (feed : Feed) : Except ParseError (Delivery × Feed) :=
  match feed.deliveries with
  | delivery :: rest => .ok (delivery, { feed with deliveries := rest })
  | [] => feed.ending.map fun last => (last, ⟨[], .ok { last with comments := [] }⟩)

/-- The feed of some tokens without comments and of the token that ends them. -/
def ofTokens (tokens : List Token) (last : Token) : Feed :=
  ⟨tokens.map fun token => { token }, .ok { token := last }⟩

/-- How many deliveries a feed holds before its end. -/
def size (feed : Feed) : Nat := feed.deliveries.length

/-- The tokens of a feed, the end of the input among them, unless it fails. -/
def tokens (feed : Feed) : Except ParseError (List Token) :=
  feed.ending.map fun last => feed.deliveries.map Delivery.token ++ [last.token]

end Feed

end LuaSyntax
