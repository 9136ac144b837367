/-!
# Texts and byte offsets

A Lua source is read character by character, while every offset that leaves the library counts
UTF-8 bytes. `Text` is therefore a list of characters, and this module holds the few functions
that go from one measure to the other: the bytes a text occupies, the characters a number of bytes
reaches, and what is left behind a cut. A cut may fall inside a character; `Text.dropBytes` says so
instead of rounding, because the callers round in different directions.

## What is decided here

- `Text.size` is additive over `++`, so an offset is the size of what precedes it.
- `Text.within` rounds a byte count down to whole characters and `Text.covering` rounds it up.
-/

namespace LuaSyntax

/-- A text, read character by character. Offsets into it count UTF-8 bytes. -/
abbrev Text := List Char

namespace Text

/-- The number of bytes that a text occupies in UTF-8. -/
def size : Text → Nat
  | [] => 0
  | c :: rest => c.utf8Size + size rest

/-- The leading characters that fit wholly into `count` bytes. -/
def within : Nat → Text → Text
  | _, [] => []
  | count, c :: rest =>
    if c.utf8Size ≤ count then c :: within (count - c.utf8Size) rest else []

/-- The leading characters that the first `count` bytes touch, the last one taken whole. -/
def covering : Nat → Text → Text
  | _, [] => []
  | count, c :: rest =>
    if count = 0 then [] else c :: covering (count - c.utf8Size) rest

/-- What follows the first `count` bytes: nothing when the text is shorter than that, and `none`
when the cut falls inside a character. -/
def dropBytes : Nat → Text → Option Text
  | _, [] => some []
  | count, c :: rest =>
    if count = 0 then some (c :: rest)
    else if c.utf8Size ≤ count then dropBytes (count - c.utf8Size) rest
    else none

/-- The character that the byte at `offset` belongs to. -/
def charAt : Nat → Text → Option Char
  | _, [] => none
  | offset, c :: rest =>
    if offset < c.utf8Size then some c else charAt (offset - c.utf8Size) rest

/-- How many leading characters have the property. -/
def countWhile (p : Char → Bool) (text : Text) : Nat := (text.takeWhile p).length

@[simp] theorem size_nil : size [] = 0 := rfl

@[simp] theorem size_cons (c : Char) (text : Text) : size (c :: text) = c.utf8Size + size text := rfl

/-- Texts are as large as both together. -/
@[simp] theorem size_append (a b : Text) : size (a ++ b) = size a + size b := by
  induction a with
  | nil => simp
  | cons c rest ih => simp [ih, Nat.add_assoc]

/-! ## Line breaks -/

/-- The two characters that end a line. -/
def isLineEnd (c : Char) : Bool := c == '\n' || c == '\r'

/-- The blanks that do not end a line: space, tab, vertical tab and form feed. -/
def isBlank (c : Char) : Bool := c == ' ' || c == '\t' || c == '\x0b' || c == '\x0c'

/-- How many characters the line break at the front of a text has. A line feed and a carriage
return next to each other, in either order, are one break. -/
def lineBreak : Text → Nat
  | c :: d :: _ => if isLineEnd c then (if isLineEnd d && d != c then 2 else 1) else 0
  | [c] => if isLineEnd c then 1 else 0
  | [] => 0

end Text

end LuaSyntax
