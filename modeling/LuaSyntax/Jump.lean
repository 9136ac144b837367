import LuaSyntax.Diagnostic.Message
import LuaSyntax.Token.Basic

/-!
# Jumps

What a function may jump to: `break` needs a loop around it, a label needs a name of its own in its
block, and a `goto` needs a label. Labels and loops do not reach across functions, so every function
has its own record of jumps, a stack with one level for each open block.

A `goto` may come before its label. It is then pending, and a later label of its name resolves it if
the label stands in a block around it. Such a jump must not enter the scope of a local variable, that
is, no local may be declared between the two; but a label at the very end of its block is taken to
stand after the scope of every local in it. Whether more follows is not known when the label is
read, so a jump over a local is put aside with the block and held against it when another statement
comes. A `goto` that is still pending when its outermost block closes has no visible label, which is
an error only if the record was told to check for it.

Blocks are counted from the outermost, from one.
-/

namespace LuaSyntax

/-- A jump that is not allowed, blamed on a token. -/
structure JumpFault where
  message : Message
  arguments : List String
  token : Token

/-- A `goto` whose label has not been seen. -/
structure PendingGoto where
  /-- The innermost open block in which it may still be resolved. -/
  depth : Nat
  target : String
  token : Token
  /-- How many locals each open block had, the outermost first, when the `goto` was read. -/
  localCounts : List Nat

/-- What an open block knows of jumps. -/
structure JumpBlock where
  isLoop : Bool
  /-- The labels of the block with the lines they are on. -/
  labels : List (String × Nat) := []
  /-- The locals of the block in order. -/
  locals : List String := []
  /-- Jumps to a label of the block that enter the scope of a local. -/
  deferred : List PendingGoto := []

/-- What an open function knows of jumps. -/
structure Jumps where
  /-- Whether there are labels in the dialect. -/
  tracksLabels : Bool
  /-- Whether a `goto` must have a visible label. -/
  checksTargets : Bool
  /-- Whether the function takes arguments beyond its parameters. -/
  allowsVararg : Bool
  /-- The open blocks, the innermost first. -/
  blocks : List JumpBlock := []
  pending : List PendingGoto := []

/-- Takes a pending `goto` out of a block that closes. -/
def PendingGoto.leave (goto : PendingGoto) (closing : Nat) : PendingGoto :=
  if closing ≤ goto.depth then { goto with depth := goto.depth - 1 } else goto

/-- How many locals the block of a depth had when a `goto` was read. -/
def PendingGoto.localsAt (goto : PendingGoto) (depth : Nat) : Nat :=
  (goto.localCounts[depth - 1]?).getD 0

/-- Whether a block has a label. -/
def JumpBlock.hasLabel (block : JumpBlock) (name : String) : Bool :=
  block.labels.any fun (label, _) => label == name

namespace Jumps

/-- How many blocks are open. -/
def depth (jumps : Jumps) : Nat := jumps.blocks.length

/-- Opens a block. -/
def push (jumps : Jumps) (isLoop : Bool) : Jumps :=
  { jumps with blocks := { isLoop } :: jumps.blocks }

/-- Closes the innermost block. -/
def pop (jumps : Jumps) : Except JumpFault Jumps :=
  let pending := jumps.pending.map (·.leave jumps.depth)
  let open? (goto : PendingGoto) : Bool := 0 < goto.depth
  match pending.find? fun goto => !(open? goto) with
  | some goto =>
    if jumps.checksTargets then .error ⟨.labelNotVisible, [goto.target], goto.token⟩
    else .ok { jumps with blocks := jumps.blocks.drop 1, pending := pending.filter open? }
  | none => .ok { jumps with blocks := jumps.blocks.drop 1, pending }

/-- Whether a loop of the function is open. -/
def isInLoop (jumps : Jumps) : Bool := jumps.blocks.any (·.isLoop)

/-- Records a `goto`. It is settled at once if an open block has its label already. -/
def addGoto (jumps : Jumps) (target : String) (token : Token) : Jumps :=
  if jumps.tracksLabels && !(jumps.blocks.any fun block => block.hasLabel target) then
    let goto : PendingGoto :=
      { depth := jumps.depth
        target
        token
        localCounts := (jumps.blocks.map fun block => block.locals.length).reverse }
    { jumps with pending := jumps.pending ++ [goto] }
  else jumps

/-- Records a label in the innermost block and settles what was waiting for it. -/
def addLabel (jumps : Jumps) (name : String) (token : Token) : Except JumpFault Jumps :=
  match jumps.tracksLabels, jumps.blocks with
  | true, block :: outer =>
    match block.labels.find? fun (label, _) => label == name with
    | some (_, line) => .error ⟨.labelAlreadyDefined, [name, toString line], token⟩
    | none =>
      let settled (goto : PendingGoto) : Bool := jumps.depth ≤ goto.depth && goto.target == name
      let entersScope (goto : PendingGoto) : Bool :=
        goto.localsAt jumps.depth < block.locals.length
      let block :=
        { block with
          labels := (name, token.start.line) :: block.labels
          deferred := block.deferred ++
            jumps.pending.filter fun goto => settled goto && entersScope goto }
      .ok { jumps with
        blocks := block :: outer
        pending := jumps.pending.filter fun goto => !(settled goto) }
  | _, _ => .ok jumps

/-- Records a local of the innermost block. -/
def addLocal (jumps : Jumps) (name : String) : Jumps :=
  match jumps.tracksLabels, jumps.blocks with
  | true, block :: outer =>
    { jumps with blocks := { block with locals := block.locals ++ [name] } :: outer }
  | _, _ => jumps

/-- Fails if a jump that was put aside turns out to enter the scope of a local, because the
innermost block goes on. -/
def checkDeferred (jumps : Jumps) : Except JumpFault Unit :=
  match jumps.blocks with
  | [] => .ok ()
  | block :: _ =>
    match block.deferred with
    | [] => .ok ()
    | goto :: _ =>
      let entered := (block.locals[goto.localsAt jumps.depth]?).getD ""
      .error ⟨.jumpIntoLocalScope, [goto.target, entered], goto.token⟩

end Jumps

end LuaSyntax
