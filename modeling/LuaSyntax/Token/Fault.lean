import LuaSyntax.Diagnostic.ParseError

/-!
# Faults in a lexeme

The readers of strings, numerals and brackets look at a text without knowing where it stands. What
goes wrong there is a `Fault`: it says how far reading had come, which is where reading goes on for
a caller that does not stop at the first error. `Fault.toError` gives it a place in the source.
-/

namespace LuaSyntax

/-- Something that cannot be read, relative to the beginning of the lexeme. -/
structure Fault where
  message : Message
  arguments : List String
  /-- How many characters were read. -/
  read : Nat
  /-- Whether the beginning of the lexeme is blamed, and not the point that reading came to. -/
  blamesStart : Bool
  /-- Whether the text ended too soon. -/
  endOfInput : Bool
  deriving DecidableEq, Repr

namespace Fault

/-- A fault found after `read` characters of a text. The text ended too soon if none are left. -/
def after (text : Text) (read : Nat) (message : Message) (arguments : List Text) : Fault :=
  { message
    arguments := arguments.map String.ofList
    read
    blamesStart := false
    endOfInput := (text.drop read).isEmpty }

/-- A fault in a part of a lexeme, seen from the beginning of the whole. -/
def shift (fault : Fault) (before : Nat) : Fault := { fault with read := fault.read + before }

/-- The place to which a fault in a lexeme that begins at `start` lets reading come. -/
def stop (fault : Fault) (start : Place) (text : Text) : Place := start.after (text.take fault.read)

/-- The error that a fault is, in a lexeme that begins at `start`. -/
def toError (fault : Fault) (source : Text) (start : Place) (text : Text) : ParseError :=
  let stop := fault.stop start text
  let offset := if fault.blamesStart then start.offset else stop.offset
  { message := fault.message
    arguments := fault.arguments
    offset
    position := .onLine source stop.line stop.lineStart offset
    endOfInput := fault.endOfInput }

end Fault

end LuaSyntax
