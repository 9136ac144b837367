import LuaSyntax.Text.Basic

/-!
# Long brackets

A long bracket opens with two square brackets that have any number of equals signs between them, its
level, and closes with the first closing bracket of the same level. Nothing inside is an escape. A
line break right behind the opener is not part of the content.
-/

namespace LuaSyntax.LongBracket

/-- The equals signs between the brackets of a level, and the bracket behind them. -/
def mark (level : Nat) (bracket : Char) : Text := List.replicate level '=' ++ [bracket]

/-- What closes a bracket of a level. -/
def closer (level : Nat) : Text := ']' :: mark level ']'

/-- What opens a bracket of a level. -/
def opener (level : Nat) : Text := '[' :: mark level '['

/-- How many characters stand before the first occurrence of a text. -/
def find? (sought : Text) : Text → Option Nat
  | [] => none
  | c :: rest =>
    if sought.isPrefixOf (c :: rest) then some 0 else (find? sought rest).map (· + 1)

/-- What stands at a square bracket. -/
inductive Outcome where
  /-- No opener of a long bracket. -/
  | absent
  /-- An opener that no closer follows. -/
  | unfinished
  /-- A long bracket of that many characters. -/
  | bracket (content : Text) (length : Nat)
  deriving DecidableEq

/-- Reads the long bracket at the front of a text. -/
def read (text : Text) : Outcome :=
  let level := Text.countWhile (· == '=') (text.drop 1)
  if (opener level).isPrefixOf text then
    let body := text.drop (level + 2)
    let broken := Text.lineBreak body
    match find? (closer level) (body.drop broken) with
    | none => .unfinished
    | some length =>
      .bracket ((body.drop broken).take length) (level + 2 + broken + length + (level + 2))
  else .absent

end LuaSyntax.LongBracket
