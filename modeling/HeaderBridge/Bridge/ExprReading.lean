/-
  Which Swift expression stands for an Objective-C one. A message becomes the call of a method
  named by the first keyword, an arrow becomes a point, and the types of casts and sizes are
  mapped. There is none where a literal has no value or a selector no method name.
-/
import HeaderBridge.Bridge.Literal
import HeaderBridge.Bridge.TypeMap
import HeaderBridge.Swift.Expr

namespace HeaderBridge

def ObjcUnary.swift : ObjcUnary → SwiftOperator
  | .neg => .subtract
  | .plus => .add
  | .not => .negate
  | .bitNot => .bitNot

def ObjcBinary.swift : ObjcBinary → SwiftOperator
  | .add => .add
  | .sub => .subtract
  | .mul => .multiply
  | .div => .divide
  | .rem => .mod
  | .shl => .shiftLeft
  | .shr => .shiftRight
  | .less => .less
  | .greater => .greater
  | .lessEq => .lessEq
  | .greaterEq => .greaterEq
  | .eq => .equals
  | .notEq => .unequals
  | .bitAnd => .bitAnd
  | .bitXor => .bitXor
  | .bitOr => .bitOr
  | .and => .and
  | .or => .or

def ObjcAssign.swift : ObjcAssign → SwiftOperator
  | .assign => .assign
  | .add => .addAssign
  | .sub => .subtractAssign
  | .mul => .multiplyAssign
  | .div => .divideAssign

namespace ObjcExpr

/-- The name of the method that a selector calls: what stands in front of its first colon. -/
def methodName? (selector : String) : Option String :=
  let name := selector.toList.takeWhile (· != ':')
  if name.isEmpty then none else some (String.ofList name)

mutual

/-- The Swift expression for an Objective-C one. -/
def swift? (m : TypeMap) : ObjcExpr → Option Expr
  | .literal value => (Literal.constant? value).map .constant
  | .ident name => some (.identifier name)
  | .paren inner => do return .parens (← swift? m inner)
  | .cast type operand => do return .cast (← swift? m operand) (m.unwrapped type)
  | .sizeOfType type => some (.sizeOfType (m.unwrapped type))
  | .sizeOfValue value => do return .sizeOfValue (← swift? m value)
  | .unary op operand => do return .unary op.swift (← swift? m operand)
  | .binary op lhs rhs => do return .binary (← swift? m lhs) op.swift (← swift? m rhs)
  | .assign op lhs rhs => do return .assignment (← swift? m lhs) op.swift (← swift? m rhs)
  | .ternary condition yes no => do
    return .ternary (← swift? m condition) (← swift? m yes) (← swift? m no)
  | .member base name _ => do return .member (← swift? m base) name
  | .call callee arguments => do
    let arguments ← swiftAll? m arguments
    return .call (← swift? m callee) arguments
  | .subscript base index => do return .subscript (← swift? m base) (← swift? m index)
  | .message receiver selector arguments => do
    let name ← methodName? selector
    let arguments ← swiftLabelled? m arguments
    return .call (.member (← swift? m receiver) name) arguments

/-- The arguments of a call, which have no labels. -/
def swiftAll? (m : TypeMap) : List ObjcExpr → Option (List (Labelled Expr))
  | [] => some []
  | e :: es => do return ⟨none, ← swift? m e⟩ :: (← swiftAll? m es)

def swiftLabelled? (m : TypeMap) : List (Labelled ObjcExpr) → Option (List (Labelled Expr))
  | [] => some []
  | a :: as => do return ⟨a.label, ← swift? m a.value⟩ :: (← swiftLabelled? m as)

end

end ObjcExpr

end HeaderBridge
