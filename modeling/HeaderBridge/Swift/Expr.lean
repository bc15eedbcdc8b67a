/-
  Swift expressions as trees, with their text and the order in which their parts are visited.
  Member access, call and subscript each hold the expression that they apply to, so a chain of
  them nests to the left.
-/
import HeaderBridge.Labelled
import HeaderBridge.Swift.Constant
import HeaderBridge.Swift.Operator
import HeaderBridge.Swift.Type

namespace HeaderBridge

inductive Expr where
  | constant (c : Constant)
  | identifier (name : String)
  | member (base : Expr) (name : String)
  | call (callee : Expr) (arguments : List (Labelled Expr))
  | subscript (base index : Expr)
  | binary (lhs : Expr) (op : SwiftOperator) (rhs : Expr)
  | unary (op : SwiftOperator) (operand : Expr)
  | assignment (lhs : Expr) (op : SwiftOperator) (rhs : Expr)
  | parens (inner : Expr)
  | cast (value : Expr) (type : SwiftType)
  /-- The size of the values of a type. -/
  | sizeOfType (type : SwiftType)
  /-- The size of a value. -/
  | sizeOfValue (value : Expr)
  | ternary (condition yes no : Expr)
  /-- A closure whose body is a row of expressions. -/
  | block (parameters : List (String × SwiftType)) (result : SwiftType) (body : List Expr)

namespace Expr

def int (value : UInt64) : Expr := .constant (.integer .decimal value)

def nil : Expr := .constant .nil

/-! ## Equality -/

mutual

/-- The same tree, with constants compared by `Constant.same`. -/
def same : Expr → Expr → Bool
  | .constant c, .constant c' => c == c'
  | .identifier n, .identifier n' => n == n'
  | .member b n, .member b' n' => same b b' && n == n'
  | .call f as, .call f' as' => same f f' && sameArguments as as'
  | .subscript b i, .subscript b' i' => same b b' && same i i'
  | .binary l o r, .binary l' o' r' => same l l' && o == o' && same r r'
  | .unary o e, .unary o' e' => o == o' && same e e'
  | .assignment l o r, .assignment l' o' r' => same l l' && o == o' && same r r'
  | .parens e, .parens e' => same e e'
  | .cast e t, .cast e' t' => same e e' && t == t'
  | .sizeOfType t, .sizeOfType t' => t == t'
  | .sizeOfValue e, .sizeOfValue e' => same e e'
  | .ternary c y n, .ternary c' y' n' => same c c' && same y y' && same n n'
  | .block ps t b, .block ps' t' b' => ps == ps' && t == t' && sameAll b b'
  | _, _ => false

def sameArguments : List (Labelled Expr) → List (Labelled Expr) → Bool
  | [], [] => true
  | a :: as, b :: bs => a.label == b.label && same a.value b.value && sameArguments as bs
  | _, _ => false

def sameAll : List Expr → List Expr → Bool
  | [], [] => true
  | a :: as, b :: bs => same a b && sameAll as bs
  | _, _ => false

end

instance : BEq Expr := ⟨same⟩

/-! ## Text -/

/-- An argument with its label. -/
def argumentText (label : Option String) (value : String) : String :=
  match label with
  | some label => label ++ ": " ++ value
  | none => value

/-- The parameters of a closure. -/
def parametersText (parameters : List (String × SwiftType)) : String :=
  ", ".intercalate (parameters.map fun (name, type) => name ++ ": " ++ type.text)

mutual

/-- The expression as Swift writes it. No parentheses are added: the tree has its own. -/
def text : Expr → String
  | .constant c => c.text
  | .identifier name => name
  | .member base name => text base ++ "." ++ name
  | .call callee arguments =>
    text callee ++ "(" ++ ", ".intercalate (argumentTexts arguments) ++ ")"
  | .subscript base index => text base ++ "[" ++ text index ++ "]"
  | .binary lhs op rhs => text lhs ++ " " ++ op.symbol ++ " " ++ text rhs
  | .unary op operand => op.symbol ++ text operand
  | .assignment lhs op rhs => text lhs ++ " " ++ op.symbol ++ " " ++ text rhs
  | .parens inner => "(" ++ text inner ++ ")"
  | .cast value type => text value ++ " as? " ++ type.text
  | .sizeOfType type => "MemoryLayout<" ++ type.text ++ ">.size"
  | .sizeOfValue value => "MemoryLayout.size(ofValue: " ++ text value ++ ")"
  | .ternary condition yes no => text condition ++ " ? " ++ text yes ++ " : " ++ text no
  | .block parameters result body =>
    "\x7b (" ++ parametersText parameters ++ ") -> " ++ result.text ++ " in" ++ bodyText body
      ++ " \x7d"

def argumentTexts : List (Labelled Expr) → List String
  | [] => []
  | a :: as => argumentText a.label (text a.value) :: argumentTexts as

def bodyText : List Expr → String
  | [] => ""
  | e :: es => " " ++ text e ++ ";" ++ bodyText es

end

/-! ## Parts -/

/-- The expressions directly inside, in the order of the text. The body of a closure counts only
    when `inBlocks` is set. -/
def children (inBlocks : Bool) : Expr → List Expr
  | .constant _ | .identifier _ | .sizeOfType _ => []
  | .member base _ => [base]
  | .call callee arguments => callee :: arguments.map (·.value)
  | .subscript base index => [base, index]
  | .binary lhs _ rhs | .assignment lhs _ rhs => [lhs, rhs]
  | .unary _ e | .parens e | .cast e _ | .sizeOfValue e => [e]
  | .ternary condition yes no => [condition, yes, no]
  | .block _ _ body => if inBlocks then body else []

mutual

/-- The number of expressions in a tree, closures included. -/
def size : Expr → Nat
  | .constant _ | .identifier _ | .sizeOfType _ => 1
  | .member base _ => size base + 1
  | .call callee arguments => size callee + argumentsSize arguments + 1
  | .subscript base index => size base + size index + 1
  | .binary lhs _ rhs | .assignment lhs _ rhs => size lhs + size rhs + 1
  | .unary _ e | .parens e | .cast e _ | .sizeOfValue e => size e + 1
  | .ternary condition yes no => size condition + size yes + size no + 1
  | .block _ _ body => listSize body + 1

def argumentsSize : List (Labelled Expr) → Nat
  | [] => 0
  | a :: as => size a.value + argumentsSize as

def listSize : List Expr → Nat
  | [] => 0
  | e :: es => size e + listSize es

end

theorem listSize_append (as bs : List Expr) :
    listSize (as ++ bs) = listSize as + listSize bs := by
  induction as with
  | nil => simp [listSize]
  | cons e es ih => simp [listSize, ih, Nat.add_assoc]

theorem argumentsSize_eq (as : List (Labelled Expr)) :
    argumentsSize as = listSize (as.map (·.value)) := by
  induction as with
  | nil => rfl
  | cons a as ih => simp [argumentsSize, listSize, ih]

/-- The parts of an expression are smaller than it. -/
theorem listSize_children (inBlocks : Bool) (e : Expr) :
    listSize (e.children inBlocks) < e.size := by
  cases e with
  | block ps t b => cases inBlocks <;> simp [children, size, listSize]
  | _ => simp [children, size, listSize, argumentsSize_eq]; try omega

/-- Visits the expressions that are still to be visited: the first of them, then its parts, then
    the others. -/
def visit (inBlocks : Bool) : List Expr → List Expr
  | [] => []
  | e :: pending => e :: visit inBlocks (e.children inBlocks ++ pending)
termination_by pending => listSize pending
decreasing_by
  have := listSize_children inBlocks e
  rw [listSize_append, listSize]
  omega

/-- The expression and everything inside it, each before its parts. -/
def sequence (inBlocks : Bool) (e : Expr) : List Expr := visit inBlocks [e]

end Expr

end HeaderBridge
