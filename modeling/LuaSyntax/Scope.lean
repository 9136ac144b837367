import LuaSyntax.Tree.Basic

/-!
# Scopes

Name resolution while a source is read. Open blocks form a stack of frames, each with the names
declared in it so far, in order and with repetitions. A use of a name is local if some open frame
declares it; otherwise it is remembered as global, once for each name, at its first such use.

A scope that is switched off takes every call and remembers nothing, so that whoever drives it need
not ask.
-/

namespace LuaSyntax

/-- The names in force while a source is read. -/
structure Scope where
  enabled : Bool
  /-- The open frames, the innermost first, each in order of declaration. -/
  frames : List (List Binding) := []
  /-- The first use of each name that was not declared, in order. -/
  unresolved : List Identifier := []
  deriving DecidableEq

namespace Scope

/-- Opens a frame. -/
def push (scope : Scope) : Scope :=
  if scope.enabled then { scope with frames := [] :: scope.frames } else scope

/-- Closes the innermost frame and gives the names declared in it. -/
def pop (scope : Scope) : Option (List Binding) × Scope :=
  if scope.enabled then
    match scope.frames with
    | [] => (none, scope)
    | frame :: frames => (some frame, { scope with frames })
  else (none, scope)

/-- Adds a declaration to the innermost frame, if any frame is open. -/
def bind (scope : Scope) (binding : Binding) : Scope :=
  match scope.frames with
  | [] => scope
  | frame :: frames => { scope with frames := (frame ++ [binding]) :: frames }

/-- Declares an identifier and marks it as local. -/
def declare (scope : Scope) (identifier : Identifier) : Identifier × Scope :=
  if scope.enabled then
    let identifier := { identifier with isLocal := true }
    (identifier, scope.bind ⟨identifier.name, some identifier⟩)
  else (identifier, scope)

/-- Declares a name that no identifier in the source stands for. -/
def declareName (scope : Scope) (name : String) : Scope :=
  if scope.enabled then scope.bind ⟨name, none⟩ else scope

/-- Whether a declaration of a name is in force. -/
def isVisible (scope : Scope) (name : String) : Bool :=
  scope.frames.any fun frame => frame.any fun binding => binding.name == name

/-- Whether a name was used before without being declared. -/
def isUnresolved (scope : Scope) (name : String) : Bool :=
  scope.unresolved.any fun identifier => identifier.name == name

/-- Resolves a use of a name: whether it is local, and the identifier marked accordingly. -/
def resolve (scope : Scope) (identifier : Identifier) : Bool × Identifier × Scope :=
  if scope.enabled then
    if scope.isVisible identifier.name then (true, { identifier with isLocal := true }, scope)
    else if scope.isUnresolved identifier.name then (false, identifier, scope)
    else (false, identifier, { scope with unresolved := scope.unresolved ++ [identifier] })
  else (false, identifier, scope)

/-- Takes the names that were used without being declared. -/
def takeUnresolved (scope : Scope) : Option (List Identifier) × Scope :=
  if scope.enabled then (some scope.unresolved, { scope with unresolved := [] })
  else (none, scope)

end Scope

end LuaSyntax
