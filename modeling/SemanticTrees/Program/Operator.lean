/-!
Operators with their names and their tokens in source text.
-/

namespace SemanticTrees

/-- An operator of two operands. -/
inductive BinaryOperator
  | add
  | subtract
  | multiply
  | divide
  | remainder
  | and
  | or
  | exclusiveOr
  | conditionalAnd
  | conditionalOr
  | equals
  | notEquals
  | lessThan
  | lessThanOrEqual
  | greaterThan
  | greaterThanOrEqual
  | leftShift
  | rightShift
deriving DecidableEq, Repr, Inhabited

namespace BinaryOperator

def all : List BinaryOperator :=
  [.add, .subtract, .multiply, .divide, .remainder, .and, .or, .exclusiveOr, .conditionalAnd,
    .conditionalOr, .equals, .notEquals, .lessThan, .lessThanOrEqual, .greaterThan,
    .greaterThanOrEqual, .leftShift, .rightShift]

def name : BinaryOperator → String
  | .add => "Add"
  | .subtract => "Subtract"
  | .multiply => "Multiply"
  | .divide => "Divide"
  | .remainder => "Remainder"
  | .and => "And"
  | .or => "Or"
  | .exclusiveOr => "ExclusiveOr"
  | .conditionalAnd => "ConditionalAnd"
  | .conditionalOr => "ConditionalOr"
  | .equals => "Equals"
  | .notEquals => "NotEquals"
  | .lessThan => "LessThan"
  | .lessThanOrEqual => "LessThanOrEqual"
  | .greaterThan => "GreaterThan"
  | .greaterThanOrEqual => "GreaterThanOrEqual"
  | .leftShift => "LeftShift"
  | .rightShift => "RightShift"

def token : BinaryOperator → String
  | .add => "+"
  | .subtract => "-"
  | .multiply => "*"
  | .divide => "/"
  | .remainder => "%"
  | .and => "&"
  | .or => "|"
  | .exclusiveOr => "^"
  | .conditionalAnd => "&&"
  | .conditionalOr => "||"
  | .equals => "=="
  | .notEquals => "!="
  | .lessThan => "<"
  | .lessThanOrEqual => "<="
  | .greaterThan => ">"
  | .greaterThanOrEqual => ">="
  | .leftShift => "<<"
  | .rightShift => ">>"

end BinaryOperator

/-- An operator of one operand. -/
inductive UnaryOperator
  | plus
  | minus
  | not
  | bitwiseNegation
  | dereference
deriving DecidableEq, Repr, Inhabited

namespace UnaryOperator

def all : List UnaryOperator := [.plus, .minus, .not, .bitwiseNegation, .dereference]

def name : UnaryOperator → String
  | .plus => "Plus"
  | .minus => "Minus"
  | .not => "Not"
  | .bitwiseNegation => "BitwiseNegation"
  | .dereference => "Dereference"

def token : UnaryOperator → String
  | .plus => "+"
  | .minus => "-"
  | .not => "!"
  | .bitwiseNegation => "~"
  | .dereference => "*"

end UnaryOperator

end SemanticTrees
