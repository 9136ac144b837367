import LuaSyntax.Dialect
import LuaSyntax.Json.Outline

/-!
# Parse options

What a caller may choose: the dialect, and whether comments, scopes, locations and byte ranges are
recorded. Options can be read from a JSON document. Every option but the last has a long and a short
name there; the document is an object of named options or a list of all of them in order. Naming an
option twice, also once by each name, is an error, and so is null for an option that is named. Names
that are no options are passed over.
-/

namespace LuaSyntax

/-- The choices that a parse depends on. -/
structure ParseOptions where
  /-- Whether an input that ends too soon is waited for. -/
  incrementalInput : Bool := false
  /-- Whether the comments are kept with the tree. -/
  collectComments : Bool := true
  /-- Whether names are resolved. -/
  trackScopes : Bool := false
  /-- Whether nodes carry lines and columns. -/
  recordLocations : Bool := false
  /-- Whether nodes carry byte ranges. -/
  recordRanges : Bool := false
  dialect : Dialect := .lua51
  /-- Whether identifiers may have characters outside ASCII. -/
  extendedIdentifiers : Bool := false
  /-- Whether a `goto` needs a label that is visible from it. -/
  checkGotoLabels : Bool := false
  deriving DecidableEq, Repr, Inhabited

/-- One of the options. -/
inductive Setting where
  | incrementalInput
  | collectComments
  | trackScopes
  | recordLocations
  | recordRanges
  | dialect
  | extendedIdentifiers
  | checkGotoLabels
  deriving DecidableEq, Repr

namespace Setting

/-- The options in the order in which a list gives them. -/
def all : List Setting :=
  [.incrementalInput, .collectComments, .trackScopes, .recordLocations, .recordRanges, .dialect,
    .extendedIdentifiers, .checkGotoLabels]

/-- The main name of an option. -/
def name : Setting → String
  | .incrementalInput => "incrementalInput"
  | .collectComments => "collectComments"
  | .trackScopes => "trackScopes"
  | .recordLocations => "recordLocations"
  | .recordRanges => "recordByteRanges"
  | .dialect => "grammarVersion"
  | .extendedIdentifiers => "extendedIdentifierChars"
  | .checkGotoLabels => "checkGotoLabels"

/-- The short name of an option; where there is none, the main name again. -/
def shortName : Setting → String
  | .incrementalInput => "wait"
  | .collectComments => "comments"
  | .trackScopes => "scope"
  | .recordLocations => "locations"
  | .recordRanges => "ranges"
  | .dialect => "luaVersion"
  | .extendedIdentifiers => "extendedIdentifiers"
  | .checkGotoLabels => "checkGotoLabels"

/-- The option of a name. -/
def ofName? (name : String) : Option Setting :=
  all.find? fun setting => setting.name == name || setting.shortName == name

/-- The truth value that an outline gives. -/
def switch? : Outline → Option Bool
  | .bool value => some value
  | _ => none

/-- The dialect that an outline gives: its name, or an object whose only member has that name and
nothing in it. -/
def dialect? : Outline → Option Dialect
  | .text (some name) => Dialect.ofName? name
  | .object [(some name, .null)] => Dialect.ofName? name
  | _ => none

/-- The options with one of them set from an outline. -/
def set? (options : ParseOptions) (outline : Outline) : Setting → Option ParseOptions
  | .incrementalInput => (switch? outline).map ({ options with incrementalInput := · })
  | .collectComments => (switch? outline).map ({ options with collectComments := · })
  | .trackScopes => (switch? outline).map ({ options with trackScopes := · })
  | .recordLocations => (switch? outline).map ({ options with recordLocations := · })
  | .recordRanges => (switch? outline).map ({ options with recordRanges := · })
  | .dialect => (dialect? outline).map ({ options with dialect := · })
  | .extendedIdentifiers => (switch? outline).map ({ options with extendedIdentifiers := · })
  | .checkGotoLabels => (switch? outline).map ({ options with checkGotoLabels := · })

end Setting

namespace ParseOptions

/-- Whether nodes carry any position at all. -/
def annotatesNodes (options : ParseOptions) : Bool :=
  options.recordLocations || options.recordRanges

/-- Whether the dialect that was chosen has a feature. -/
def has (options : ParseOptions) (feature : Feature) : Bool := options.dialect.has feature

/-- Sets options in the order in which a list gives their values. -/
def ofItems (options : ParseOptions) : List Setting → List Outline → Option ParseOptions
  | _, [] => some options
  | [], _ :: _ => none
  | setting :: settings, item :: items => do
    let options ← setting.set? options item
    options.ofItems settings items

/-- Sets options from named members, none of them twice; `seen` are those that are set. -/
def ofMembers (options : ParseOptions) (seen : List Setting) :
    List (Option String × Outline) → Option ParseOptions
  | [] => some options
  | (none, _) :: _ => none
  | (some name, item) :: members =>
    match Setting.ofName? name with
    | none => options.ofMembers seen members
    | some setting => do
      guard !(seen.contains setting)
      let options ← setting.set? options item
      options.ofMembers (setting :: seen) members

/-- The options that an outline describes. -/
def ofOutline? : Outline → Option ParseOptions
  | .list items => ({} : ParseOptions).ofItems Setting.all items
  | .object members => ({} : ParseOptions).ofMembers [] members
  | _ => none

/-- The options that a JSON document describes, or nothing if it is none or describes none. -/
def ofJson? (text : String) : Option ParseOptions := (Outline.read? text).bind ofOutline?

end ParseOptions

end LuaSyntax
