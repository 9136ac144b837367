import LuaSyntax.Text.Digit

/-!
# Message templates

A template is text with numbered holes. A hole is an opening brace, at least one decimal digit and a
closing brace, and it is filled with the argument of that number; a hole without an argument and a
brace that belongs to no hole stay as they are written. The template is read once, from left to
right, and an argument is copied without being read, so source text quoted in a message cannot be
mistaken for a hole.
-/

namespace LuaSyntax.Template

/-- The brace that opens a hole. -/
def opening : Char := '\x7b'

/-- The brace that closes a hole. -/
def closing : Char := '\x7d'

/-- The hole that stands behind an opening brace, if one does: its number, and how many characters
it has after that brace. -/
def hole? (text : List Char) : Option (Nat × Nat) :=
  let digits := text.takeWhile Char.isDigit
  if digits.isEmpty then none
  else match text.drop digits.length with
    | c :: _ => if c == closing then some (Digit.decimal digits, digits.length + 1) else none
    | [] => none

/-- Fills the holes of a template, leaving out its first `skip` characters, which belong to a hole
that is filled already. -/
def fillFrom (arguments : List String) : Nat → List Char → List Char
  | _, [] => []
  | skip + 1, _ :: rest => fillFrom arguments skip rest
  | 0, c :: rest =>
    if c == opening then
      match hole? rest with
      | some (index, length) =>
        match arguments[index]? with
        | some argument => argument.toList ++ fillFrom arguments length rest
        | none => c :: fillFrom arguments 0 rest
      | none => c :: fillFrom arguments 0 rest
    else c :: fillFrom arguments 0 rest

/-- The template with every hole that has an argument filled. -/
def fill (template : String) (arguments : List String) : String :=
  String.ofList (fillFrom arguments 0 template.toList)

end LuaSyntax.Template
