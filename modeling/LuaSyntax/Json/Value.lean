/-!
# JSON values

The values that a tree is written to. An object keeps its members in the order in which they were
written; nobody reads anything out of that order, but keeping it makes equality of two values the
plain equality of data. A number is either a count or a measured quantity: counts (lines, columns,
offsets) are exact, and the value of a numeral is a 64-bit float.
-/

namespace LuaSyntax

/-- A JSON value. -/
inductive JsonValue where
  | null
  | bool (value : Bool)
  | count (value : Nat)
  | float (value : Float)
  | text (value : String)
  | list (items : List JsonValue)
  | object (members : List (String × JsonValue))

namespace JsonValue

/-- A float as JSON: only finite numbers have a spelling, all others are written as null. -/
def ofFloat (value : Float) : JsonValue := if value.isFinite then .float value else .null

/-- A member that is left out when there is nothing to write. -/
def member? (name : String) (value : Option JsonValue) : List (String × JsonValue) :=
  value.toList.map (name, ·)

end JsonValue

end LuaSyntax
