import LuaSyntax.Text.Basic

/-!
# Places, positions and locations

A `Place` is a point of a source as a reader keeps it: the byte offset, the line, and the offset at
which that line begins. It is all that reading needs to go on from, and it holds no column, because
a column can be counted whenever somebody asks for one. A `Position` is what people are told: a
line and a column, both counted from one, the column in characters.

`Place.after` walks over a text and is the only thing that moves a place. Line feed, carriage
return and the two pairs of them each count as one break; the pair is recognised inside the text
walked over, so a caller walks over a pair in one step.
-/

namespace LuaSyntax

/-- A point of a source. Its offsets and its line have no bound of their own. In a source of less than
`2 ^ 32 - 1` bytes they fit into 32 bits, and so does the column of a point: reading is written out
with numbers of that size where `Guarded` is defined, and shown to come to the same. -/
structure Place where
  /-- The number of bytes before the point. -/
  offset : Nat
  /-- The line it is on, counted from one. -/
  line : Nat
  /-- The offset at which that line begins. -/
  lineStart : Nat
  deriving DecidableEq, Repr

namespace Place

/-- The beginning of every source. -/
def start : Place := ⟨0, 1, 0⟩

instance : Inhabited Place := ⟨start⟩

/-- The place behind one character that ends no line. -/
def afterChar (place : Place) (c : Char) : Place :=
  { place with offset := place.offset + c.utf8Size }

/-- The place behind a line break of that many bytes. -/
def afterBreak (place : Place) (bytes : Nat) : Place :=
  ⟨place.offset + bytes, place.line + 1, place.offset + bytes⟩

/-- The place behind a text that begins at `place`. -/
def after (place : Place) : Text → Place
  | [] => place
  | [c] => if Text.isLineEnd c then place.afterBreak 1 else place.afterChar c
  | c :: d :: rest =>
    if Text.isLineEnd c then
      if Text.isLineEnd d && d != c then (place.afterBreak 2).after rest
      else (place.afterBreak 1).after (d :: rest)
    else (place.afterChar c).after (d :: rest)

end Place

/-- A line and a column, both counted from one. Columns count characters. -/
structure Position where
  line : Nat
  column : Nat
  deriving DecidableEq, Repr, Inhabited

/-- The two ends of a piece of source. -/
structure Location where
  start : Position
  stop : Position
  deriving DecidableEq, Repr, Inhabited

/-- The column of an offset on the line that begins at `lineStart`. An offset past the end counts as
the end and one inside a character as the beginning of that character; when the line does not begin
between two characters, or begins behind the offset, the column is one. -/
def Text.column (source : Text) (lineStart offset : Nat) : Nat :=
  match source.dropBytes lineStart with
  | some line => (line.within (offset - lineStart)).length + 1
  | none => 1

namespace Position

/-- The position of an offset on a given line. -/
def onLine (source : Text) (line lineStart offset : Nat) : Position :=
  ⟨line, source.column lineStart offset⟩

/-- The position of a place. -/
def ofPlace (source : Text) (place : Place) : Position :=
  .onLine source place.line place.lineStart place.offset

/-- A position as text, the line first. -/
def text (position : Position) : String :=
  let line := toString position.line
  let column := toString position.column
  s!"{line}:{column}"

end Position

end LuaSyntax
