import LuaSyntax.Token.Basic

/-!
# Operators

The operators that stand between two operands or before one, and how tightly they bind. The two
logical operators are a class of their own, because they need not evaluate their right operand and a
tree says so; for the grammar they are operators between operands like all others.

Levels count up with the tightness of the bond. Operators before an operand all have one level, 11,
and only the power operator binds more tightly, so a minus sign before a power negates the power.
-/

namespace LuaSyntax

/-- An operator before its operand. -/
inductive UnaryOperator where
  | negate
  | length
  | complement
  | not
  deriving DecidableEq, Repr

namespace UnaryOperator

/-- How an operator is spelled. -/
def spelling : UnaryOperator → String
  | .negate => "-"
  | .length => "#"
  | .complement => "~"
  | .not => "not"

/-- The operator that a token is before an operand. -/
def ofToken? : TokenValue → Option UnaryOperator
  | .punctuator .minus => some .negate
  | .punctuator .hash => some .length
  | .punctuator .tilde => some .complement
  | .keyword .notWord => some .not
  | _ => none

/-- The level above which an operator must bind to stay inside the operand of a unary one. -/
def operandLevel : Nat := 10

end UnaryOperator

/-- An operator that may leave its right operand unevaluated. -/
inductive LogicalOperator where
  | and
  | or
  deriving DecidableEq, Repr

/-- An operator that evaluates both operands. -/
inductive BinaryOperator where
  | add
  | subtract
  | multiply
  | divide
  | floorDivide
  | modulo
  | power
  | concat
  | equal
  | notEqual
  | less
  | lessEqual
  | greater
  | greaterEqual
  | bitAnd
  | bitOr
  | bitXor
  | shiftLeft
  | shiftRight
  deriving DecidableEq, Repr

/-- An operator between two operands. -/
inductive Operator where
  | logical (operator : LogicalOperator)
  | binary (operator : BinaryOperator)
  deriving DecidableEq, Repr

/-- How an operator is spelled. -/
def LogicalOperator.spelling : LogicalOperator → String
  | .and => "and"
  | .or => "or"

/-- How an operator is spelled. -/
def BinaryOperator.spelling : BinaryOperator → String
  | .add => "+"
  | .subtract => "-"
  | .multiply => "*"
  | .divide => "/"
  | .floorDivide => "//"
  | .modulo => "%"
  | .power => "^"
  | .concat => ".."
  | .equal => "=="
  | .notEqual => "~="
  | .less => "<"
  | .lessEqual => "<="
  | .greater => ">"
  | .greaterEqual => ">="
  | .bitAnd => "&"
  | .bitOr => "|"
  | .bitXor => "~"
  | .shiftLeft => "<<"
  | .shiftRight => ">>"

/-- How tightly an operator binds. -/
def BinaryOperator.level : BinaryOperator → Nat
  | .power => 12
  | .multiply | .divide | .floorDivide | .modulo => 10
  | .add | .subtract => 9
  | .concat => 8
  | .shiftLeft | .shiftRight => 7
  | .bitAnd => 6
  | .bitXor => 5
  | .bitOr => 4
  | .equal | .notEqual | .less | .lessEqual | .greater | .greaterEqual => 3

namespace Operator

/-- The operators between operands, the loosest first. -/
def all : List Operator :=
  [.logical .or, .logical .and, .binary .less, .binary .greater, .binary .lessEqual,
    .binary .greaterEqual, .binary .notEqual, .binary .equal, .binary .bitOr, .binary .bitXor,
    .binary .bitAnd, .binary .shiftLeft, .binary .shiftRight, .binary .concat, .binary .add,
    .binary .subtract, .binary .multiply, .binary .divide, .binary .floorDivide, .binary .modulo,
    .binary .power]

/-- How an operator is spelled. -/
def spelling : Operator → String
  | .logical operator => operator.spelling
  | .binary operator => operator.spelling

/-- How tightly an operator binds. -/
def level : Operator → Nat
  | .logical .or => 1
  | .logical .and => 2
  | .binary operator => operator.level

/-- Whether a row of the same operator groups from the right. -/
def groupsRight : Operator → Bool
  | .binary .power => true
  | .binary .concat => true
  | _ => false

/-- The level above which an operator must bind to belong to the right operand. An operator that
groups from the right lets one of its own level in. -/
def rightLevel (operator : Operator) : Nat :=
  if operator.groupsRight then operator.level - 1 else operator.level

/-- The operator between operands that is spelled so. -/
def ofSpelling? (spelling : String) : Option Operator := all.find? (·.spelling == spelling)

/-- The operator that a token is between operands. -/
def ofToken? : TokenValue → Option Operator
  | .keyword .andWord => some (.logical .and)
  | .keyword .orWord => some (.logical .or)
  | .punctuator .plus => some (.binary .add)
  | .punctuator .minus => some (.binary .subtract)
  | .punctuator .star => some (.binary .multiply)
  | .punctuator .slash => some (.binary .divide)
  | .punctuator .doubleSlash => some (.binary .floorDivide)
  | .punctuator .percent => some (.binary .modulo)
  | .punctuator .caret => some (.binary .power)
  | .punctuator .doubleDot => some (.binary .concat)
  | .punctuator .equal => some (.binary .equal)
  | .punctuator .notEqual => some (.binary .notEqual)
  | .punctuator .less => some (.binary .less)
  | .punctuator .lessEqual => some (.binary .lessEqual)
  | .punctuator .greater => some (.binary .greater)
  | .punctuator .greaterEqual => some (.binary .greaterEqual)
  | .punctuator .ampersand => some (.binary .bitAnd)
  | .punctuator .pipe => some (.binary .bitOr)
  | .punctuator .tilde => some (.binary .bitXor)
  | .punctuator .shiftLeft => some (.binary .shiftLeft)
  | .punctuator .shiftRight => some (.binary .shiftRight)
  | _ => none

/-- An operator is found by its spelling. -/
theorem ofSpelling?_spelling (operator : Operator) :
    ofSpelling? operator.spelling = some operator := by
  rcases operator with operator | operator <;> cases operator <;> rfl

end Operator

end LuaSyntax
