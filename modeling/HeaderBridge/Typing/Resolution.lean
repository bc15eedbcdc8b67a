/-
  The types of Swift expressions. Literals, known names, members of known types and the operators
  of constants have types; whatever lies outside these rules has none, and an expression with
  such a part that counts has none either.
-/
import HeaderBridge.Swift.Expr
import HeaderBridge.Typing.Registry
import HeaderBridge.Typing.Scope

namespace HeaderBridge

namespace SwiftType

/-- The type of `nil`. -/
def ofNil : SwiftType := .optional .anyObject

/-- The common type of two numbers: equal types stay, and a single floating one wins. -/
def widened? (a b : SwiftType) : Option SwiftType :=
  if a = b then some a
  else if a.isFloating && !b.isFloating then some a
  else if !a.isFloating && b.isFloating then some b
  else none

/-- Whether values of two types may be compared: numbers with each other, equal types, and
    anything optional with `nil`. -/
def comparable (a b : SwiftType) : Bool :=
  (a.isNumeric && b.isNumeric) || a == b || (a == ofNil && b.isOptional)
    || (b == ofNil && a.isOptional)

/-- A type behind a step through an optional, which makes it optional if it is not yet. -/
def lifted (t : SwiftType) : SwiftType := if t.isOptional then t else .optional t

/-- What a member is worth, whose type depends on the type that it is taken of. -/
def through (f : SwiftType → Option SwiftType) : SwiftType → Option SwiftType
  | .optional t => (f t.unwrapped).map lifted
  | .implicit t => f t.unwrapped
  | t => f t

/-- What a subscript of a collection is worth. -/
def element? (t : SwiftType) : Option SwiftType :=
  match t.unwrapped with
  | .array e => some e
  | .dictionary _ v => some (.optional v)
  | _ => none

/-- A type under a condition. -/
def only (holds : Bool) (t : SwiftType) : Option SwiftType := if holds then some t else none

end SwiftType

namespace SwiftOperator

/-- The type of an operator in front of its operand. -/
def unaryType? (op : SwiftOperator) (t : SwiftType) : Option SwiftType :=
  match op with
  | .subtract | .add => t.only t.isNumeric
  | .bitNot => t.only t.isInteger
  | .negate => t.only (t == .bool)
  | _ => none

/-- The type of an arithmetic operator. Strings are joined by `+`, and `%` needs integers of one
    type. -/
def arithmeticType? (op : SwiftOperator) (a b : SwiftType) : Option SwiftType :=
  if op = .add ∧ a = .string ∧ b = .string then some a
  else if op = .mod then a.only (a.isInteger && a == b)
  else if a.isNumeric && b.isNumeric then a.widened? b
  else none

/-- The type of an operator on bits. A shift keeps the type on its left. -/
def bitwiseType? (op : SwiftOperator) (a b : SwiftType) : Option SwiftType :=
  if a.isInteger && b.isInteger then
    match op with
    | .shiftLeft | .shiftRight => some a
    | _ => a.only (a == b)
  else none

/-- The type of an operator between two operands. -/
def binaryType? (op : SwiftOperator) (a b : SwiftType) : Option SwiftType :=
  match op.category with
  | .arithmetic => op.arithmeticType? a b
  | .bitwise => op.bitwiseType? a b
  | .comparison => SwiftType.only (a.comparable b) .bool
  | .logical => SwiftType.only (a == .bool && b == .bool) .bool
  | .coalescing =>
    match a with
    | .optional t | .implicit t => some t
    | _ => none
  | .assignment => none

end SwiftOperator

def Constant.type : Constant → SwiftType
  | .integer _ _ => .int
  | .float _ => .double
  | .boolean _ => .bool
  | .string _ => .string
  | .nil => .ofNil

/-- The type of a choice between two values. -/
def SwiftType.chosen? (condition yes no : SwiftType) : Option SwiftType :=
  if condition ≠ .bool then none
  else if yes = no then some yes
  else if yes.isNumeric && no.isNumeric then yes.widened? no
  else none

/-! ## Members -/

namespace Registry

/-- The type of a property of a type, or of a type above it. -/
def propertyType? (r : Registry) (name : String) (t : SwiftType) : Option SwiftType := do
  r.member? (← t.nominalName?) fun known => (known.property? name).map (·.storage.type)

/-- The result of a method of a type, or of a type above it. -/
def methodType? (r : Registry) (name : String) (arity : Nat) (t : SwiftType) :
    Option SwiftType := do
  r.member? (← t.nominalName?) fun known => (known.method? name arity).map (·.returns)

end Registry

/-! ## Expressions -/

/-- The type of an expression. Of the arguments of a call only their number counts, and the index
    of a subscript does not count at all. -/
def Expr.type? (r : Registry) (s : Scope) : Expr → Option SwiftType
  | .constant c => some c.type
  | .identifier name => s.typeOf? name
  | .parens inner => type? r s inner
  | .cast value type => do
    let _ ← type? r s value
    return .optional type
  | .sizeOfType _ => some .int
  | .sizeOfValue value => do
    let _ ← type? r s value
    return .int
  | .unary op operand => do op.unaryType? (← type? r s operand)
  | .binary lhs op rhs => do op.binaryType? (← type? r s lhs) (← type? r s rhs)
  | .assignment lhs _ rhs => do
    let _ ← type? r s lhs
    let _ ← type? r s rhs
    return .void
  | .ternary condition yes no => do
    SwiftType.chosen? (← type? r s condition) (← type? r s yes) (← type? r s no)
  | .member base name => do SwiftType.through (r.propertyType? name) (← type? r s base)
  | .call (.member receiver name) arguments => do
    SwiftType.through (r.methodType? name arguments.length) (← type? r s receiver)
  | .call (.identifier name) arguments =>
    ((s.functions name).find? (·.arity == arguments.length)).map (·.returns)
  | .call _ _ => none
  | .subscript base _ => do SwiftType.element? (← type? r s base)
  | .block _ _ _ => none

end HeaderBridge
