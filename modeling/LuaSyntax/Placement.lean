import LuaSyntax.Options
import LuaSyntax.Text.Place
import LuaSyntax.Text.Span

/-!
# Placements

Every node of a tree, and every comment, can say where it stands: by lines and columns, by bytes, by
both or not at all. Which of these are recorded is the caller's choice and holds for a whole parse.
-/

namespace LuaSyntax

/-- Where a node stands, as far as that was asked for. -/
structure Placement where
  location : Option Location
  range : Option Span
  deriving DecidableEq, Repr, Inhabited

namespace Placement

/-- The placement that says nothing. -/
def none : Placement := ⟨Option.none, Option.none⟩

/-- The placement of what stands between two places of a source. -/
def between (options : ParseOptions) (source : Text) (start stop : Place) : Placement :=
  { location :=
      if options.recordLocations then
        some ⟨.ofPlace source start, .ofPlace source stop⟩
      else Option.none
    range := if options.recordRanges then some ⟨start.offset, stop.offset⟩ else Option.none }

end Placement

/-- A comment. -/
structure Comment where
  /-- The text between the marks of the comment. -/
  value : String
  /-- The comment as it is written. -/
  raw : String
  placement : Placement
  deriving DecidableEq, Repr

end LuaSyntax
