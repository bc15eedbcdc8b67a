/-
  The operators of Swift expressions. One symbol may serve as a prefix and between two operands;
  it is the same operator in both places.
-/

namespace HeaderBridge

inductive SwiftOperator where
  | add | subtract | multiply | divide | mod
  | addAssign | subtractAssign | multiplyAssign | divideAssign
  /-- The logical `!`. -/
  | negate
  | and | or
  | bitAnd | bitOr | bitXor | bitNot | shiftLeft | shiftRight
  | less | lessEq | greater | greaterEq
  | assign | equals | unequals
  /-- The `??` that supplies a value for nothing. -/
  | coalesce
  deriving DecidableEq

/-- What an operator is for. -/
inductive OperatorCategory where
  | arithmetic
  | logical
  | bitwise
  | comparison
  | assignment
  | coalescing
  deriving DecidableEq

namespace SwiftOperator

def category : SwiftOperator → OperatorCategory
  | .add | .subtract | .multiply | .divide | .mod => .arithmetic
  | .negate | .and | .or => .logical
  | .bitAnd | .bitOr | .bitXor | .bitNot | .shiftLeft | .shiftRight => .bitwise
  | .less | .lessEq | .greater | .greaterEq | .equals | .unequals => .comparison
  | .assign | .addAssign | .subtractAssign | .multiplyAssign | .divideAssign => .assignment
  | .coalesce => .coalescing

def symbol : SwiftOperator → String
  | .add => "+"
  | .subtract => "-"
  | .multiply => "*"
  | .divide => "/"
  | .mod => "%"
  | .addAssign => "+="
  | .subtractAssign => "-="
  | .multiplyAssign => "*="
  | .divideAssign => "/="
  | .negate => "!"
  | .and => "&&"
  | .or => "||"
  | .bitAnd => "&"
  | .bitOr => "|"
  | .bitXor => "^"
  | .bitNot => "~"
  | .shiftLeft => "<<"
  | .shiftRight => ">>"
  | .less => "<"
  | .lessEq => "<="
  | .greater => ">"
  | .greaterEq => ">="
  | .assign => "="
  | .equals => "=="
  | .unequals => "!="
  | .coalesce => "??"

/-- Every operator. -/
def all : List SwiftOperator := [
  .add, .subtract, .multiply, .divide, .mod, .addAssign, .subtractAssign, .multiplyAssign,
  .divideAssign, .negate, .and, .or, .bitAnd, .bitOr, .bitXor, .bitNot, .shiftLeft, .shiftRight,
  .less, .lessEq, .greater, .greaterEq, .assign, .equals, .unequals, .coalesce]

/-- The operator with a given symbol. -/
def ofSymbol? (s : String) : Option SwiftOperator := all.find? (·.symbol == s)

end SwiftOperator

end HeaderBridge
