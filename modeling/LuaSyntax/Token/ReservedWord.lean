import LuaSyntax.Dialect

/-!
# Reserved words

The words that can be no name. Three of them depend on the dialect: `goto`, where labels exist and
the word does not depend on what follows it, and the two words that begin structure declarations and
structure constructors. The words for the truth values and for nothing are no keywords here; they
are read as literals.
-/

namespace LuaSyntax

/-- A keyword. -/
inductive ReservedWord where
  | andWord
  | breakWord
  | doWord
  | elseWord
  | elseifWord
  | endWord
  | forWord
  | functionWord
  | ifWord
  | inWord
  | localWord
  | notWord
  | orWord
  | repeatWord
  | returnWord
  | thenWord
  | untilWord
  | whileWord
  | gotoWord
  | hstructureWord
  | hmakeWord
  deriving DecidableEq, Repr

namespace ReservedWord

/-- All keywords. -/
def all : List ReservedWord :=
  [.andWord, .breakWord, .doWord, .elseWord, .elseifWord, .endWord, .forWord, .functionWord, .ifWord,
    .inWord, .localWord, .notWord, .orWord, .repeatWord, .returnWord, .thenWord, .untilWord,
    .whileWord, .gotoWord, .hstructureWord, .hmakeWord]

/-- How a keyword is spelled. -/
def spelling : ReservedWord → String
  | .andWord => "and"
  | .breakWord => "break"
  | .doWord => "do"
  | .elseWord => "else"
  | .elseifWord => "elseif"
  | .endWord => "end"
  | .forWord => "for"
  | .functionWord => "function"
  | .ifWord => "if"
  | .inWord => "in"
  | .localWord => "local"
  | .notWord => "not"
  | .orWord => "or"
  | .repeatWord => "repeat"
  | .returnWord => "return"
  | .thenWord => "then"
  | .untilWord => "until"
  | .whileWord => "while"
  | .gotoWord => "goto"
  | .hstructureWord => "hstructure"
  | .hmakeWord => "hmake"

/-- Whether a dialect reserves the word. -/
def reservedIn (dialect : Dialect) : ReservedWord → Bool
  | .gotoWord => dialect.reservesGoto
  | .hstructureWord => dialect.has .hstructure
  | .hmakeWord => dialect.has .hmake
  | _ => true

/-- The keyword of a dialect that is spelled like a name. -/
def ofName? (dialect : Dialect) (name : String) : Option ReservedWord :=
  all.find? fun word => word.spelling == name && word.reservedIn dialect

end ReservedWord

end LuaSyntax
