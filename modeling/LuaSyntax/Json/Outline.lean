import LuaSyntax.Text.Basic
import LuaSyntax.Text.Digit

/-!
# Reading JSON

Options arrive as a JSON document. What they need of it is little: which members it has, and whether
a value is a boolean, a text or null. An `Outline` keeps just that. Numbers are checked for their
form and then forgotten, so one too large for any machine is no error where nobody looks at it. A
text is kept as `none` when an escape in it names half of a surrogate pair: such a text is well
formed and may be skipped over, and only somebody who wants its characters has to refuse it.

## What is decided here

The grammar is that of the standard, without extensions: four blanks, no leading zeros, no trailing
commas, no control characters in texts, nothing behind the document. There is no limit on nesting;
the reading is bounded by the length of the text.
-/

namespace LuaSyntax

/-- The shape of a JSON document. -/
inductive Outline where
  | null
  | bool (value : Bool)
  | number
  | text (value : Option String)
  | list (items : List Outline)
  | object (members : List (Option String × Outline))

namespace Outline

/-- The blanks that may stand between the parts of a document. -/
def isBlank (c : Char) : Bool := c == ' ' || c == '\t' || c == '\n' || c == '\r'

/-- The text behind its leading blanks. -/
def skipBlanks (text : Text) : Text := text.dropWhile isBlank

/-- The text behind a given character and the blanks before it. -/
def expect (c : Char) (text : Text) : Option Text :=
  match skipBlanks text with
  | d :: rest => if d == c then some rest else none
  | [] => none

/-! ## Numbers -/

/-- The text behind at least one decimal digit. -/
def digits (text : Text) : Option Text :=
  match text with
  | c :: rest => if c.isDigit then some (rest.dropWhile Char.isDigit) else none
  | [] => none

/-- The text behind a fraction, if one stands there. -/
def fraction (text : Text) : Option Text :=
  match text with
  | '.' :: rest => digits rest
  | _ => some text

/-- The text behind an exponent, if one stands there. -/
def exponent (text : Text) : Option Text :=
  match text with
  | c :: rest =>
    if c == 'e' || c == 'E' then
      match rest with
      | '+' :: more => digits more
      | '-' :: more => digits more
      | _ => digits rest
    else some text
  | [] => some text

/-- The text behind a number without its sign. A leading zero stands alone. -/
def unsigned (text : Text) : Option Text :=
  match text with
  | '0' :: c :: rest =>
    if c.isDigit then none else (fraction (c :: rest)).bind exponent
  | _ => ((digits text).bind fraction).bind exponent

/-! ## Texts -/

/-- One unit of an escaped text: a character, or a 16-bit unit written by number. -/
inductive TextUnit where
  | char (c : Char)
  | code (value : Nat)

/-- The character that a letter stands for behind a backslash. -/
def escape? : Char → Option Char
  | '"' => some '"'
  | '\\' => some '\\'
  | '/' => some '/'
  | 'b' => some '\x08'
  | 'f' => some '\x0c'
  | 'n' => some '\n'
  | 'r' => some '\r'
  | 't' => some '\t'
  | _ => none

/-- The units of a text up to its closing quote, and what follows that quote. -/
def textUnits : Text → Option (List TextUnit × Text)
  | [] => none
  | '"' :: rest => some ([], rest)
  | '\\' :: 'u' :: a :: b :: c :: d :: rest => do
    let a ← Digit.hex? a
    let b ← Digit.hex? b
    let c ← Digit.hex? c
    let d ← Digit.hex? d
    let (units, after) ← textUnits rest
    some (.code (((a * 16 + b) * 16 + c) * 16 + d) :: units, after)
  | '\\' :: c :: rest => do
    let c ← escape? c
    let (units, after) ← textUnits rest
    some (.char c :: units, after)
  | c :: rest =>
    if c.toNat < 0x20 || c == '\\' then none
    else do
      let (units, after) ← textUnits rest
      some (.char c :: units, after)

/-- The characters that a row of units spells: a high and a low surrogate make one character, and a
surrogate alone makes none. -/
def joinUnits : List TextUnit → Option Text
  | [] => some []
  | .char c :: rest => (joinUnits rest).map (c :: ·)
  | .code high :: .code low :: rest =>
    if 0xD800 ≤ high && high < 0xDC00 then
      if 0xDC00 ≤ low && low < 0xE000 then
        let c := Char.ofNat (0x10000 + (high - 0xD800) * 0x400 + (low - 0xDC00))
        (joinUnits rest).map (c :: ·)
      else none
    else if 0xDC00 ≤ high && high < 0xE000 then none
    else (joinUnits (.code low :: rest)).map (Char.ofNat high :: ·)
  | .code value :: rest =>
    if 0xD800 ≤ value && value < 0xE000 then none
    else (joinUnits rest).map (Char.ofNat value :: ·)

/-- A text behind its opening quote. -/
def quoted (text : Text) : Option (Option String × Text) :=
  (textUnits text).map fun (units, after) => ((joinUnits units).map String.ofList, after)

/-! ## Documents -/

mutual

/-- A value and what follows it. -/
def value : Nat → Text → Option (Outline × Text)
  | 0, _ => none
  | fuel + 1, source =>
    match skipBlanks source with
    | 'n' :: 'u' :: 'l' :: 'l' :: rest => some (.null, rest)
    | 't' :: 'r' :: 'u' :: 'e' :: rest => some (.bool true, rest)
    | 'f' :: 'a' :: 'l' :: 's' :: 'e' :: rest => some (.bool false, rest)
    | '"' :: rest => (quoted rest).map fun (value, after) => (.text value, after)
    | '[' :: rest =>
      match expect ']' rest with
      | some after => some (.list [], after)
      | none => (items fuel rest).map fun (items, after) => (.list items, after)
    | '\x7b' :: rest =>
      match expect '\x7d' rest with
      | some after => some (.object [], after)
      | none => (members fuel rest).map fun (members, after) => (.object members, after)
    | '-' :: rest => (unsigned rest).map (.number, ·)
    | rest => (unsigned rest).map (.number, ·)

/-- The items of a list that is not empty, up to its closing bracket. -/
def items : Nat → Text → Option (List Outline × Text)
  | 0, _ => none
  | fuel + 1, source => do
    let (item, rest) ← value fuel source
    match expect ',' rest with
    | some more =>
      let (others, after) ← items fuel more
      some (item :: others, after)
    | none =>
      let after ← expect ']' rest
      some ([item], after)

/-- The members of an object that is not empty, up to its closing brace. -/
def members : Nat → Text → Option (List (Option String × Outline) × Text)
  | 0, _ => none
  | fuel + 1, source => do
    let (name, rest) ← quoted (← expect '"' source)
    let (item, rest) ← value fuel (← expect ':' rest)
    match expect ',' rest with
    | some more =>
      let (others, after) ← members fuel more
      some ((name, item) :: others, after)
    | none =>
      let after ← expect '\x7d' rest
      some ([(name, item)], after)

end

/-- The outline of a document, if the text is one. -/
def read? (source : String) : Option Outline := do
  let characters := source.toList
  let (outline, rest) ← value (2 * characters.length + 2) characters
  if (skipBlanks rest).isEmpty then some outline else none

end Outline

end LuaSyntax
