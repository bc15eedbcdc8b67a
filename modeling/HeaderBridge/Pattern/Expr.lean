/-
  Patterns over expressions and chains: names, operators, chains of links in the order of the
  tree or of the text, the idioms around nil, and a search through everything inside.
-/
import HeaderBridge.Pattern.Basic

namespace HeaderBridge

/-! ## Parts of expressions -/

namespace Expr

def asConstant? : Expr → Option Constant
  | .constant c => some c
  | _ => none

def asIdentifier? : Expr → Option String
  | .identifier name => some name
  | _ => none

/-- The operands and operator of a binary expression. -/
def asBinary? : Expr → Option (Expr × SwiftOperator × Expr)
  | .binary lhs op rhs => some (lhs, op, rhs)
  | _ => none

def asUnary? : Expr → Option (SwiftOperator × Expr)
  | .unary op operand => some (op, operand)
  | _ => none

/-- The operands and operator of an assignment. -/
def asAssignment? : Expr → Option (Expr × SwiftOperator × Expr)
  | .assignment lhs op rhs => some (lhs, op, rhs)
  | _ => none

def asCast? : Expr → Option (Expr × SwiftType)
  | .cast value type => some (value, type)
  | _ => none

def isBlock : Expr → Bool
  | .block _ _ _ => true
  | _ => false

end Expr

namespace Link

def asMember? : Link → Option String
  | .member name => some name
  | _ => none

def asCall? : Link → Option (List (Labelled Expr))
  | .call arguments => some arguments
  | _ => none

def asSubscript? : Link → Option Expr
  | .subscript index => some index
  | _ => none

/-- The same link, with its expressions compared by `Expr.same`. -/
def same : Link → Link → Bool
  | .member a, .member b => a == b
  | .call as, .call bs => Expr.sameArguments as bs
  | .subscript i, .subscript j => i == j
  | _, _ => false

instance : BEq Link := ⟨same⟩

end Link

namespace PatternOver

/-! ## Operators and names -/

/-- A name. -/
def ident (name : Pattern .name) : Pattern .expr := .view .name Expr.asIdentifier? name

/-- Two operands and the operator between them, where `part` finds them. They are matched in the
    order of the text. -/
def operands (part : Expr → Option (Expr × SwiftOperator × Expr)) (lhs : Pattern .expr)
    (op : Pattern .op) (rhs : Pattern .expr) : Pattern .expr :=
  .view .operation part (.apart (
    .both (.view .expr (fun (l, _, _) => some l) lhs)
      (.both (.view .op (fun (_, op, _) => some op) op)
        (.view .expr (fun (_, _, r) => some r) rhs))))

def binary (lhs : Pattern .expr) (op : Pattern .op) (rhs : Pattern .expr) : Pattern .expr :=
  operands Expr.asBinary? lhs op rhs

def assignment (lhs : Pattern .expr) (op : Pattern .op) (rhs : Pattern .expr) : Pattern .expr :=
  operands Expr.asAssignment? (.apart lhs) op rhs

def unary (op : Pattern .op) (operand : Pattern .expr) : Pattern .expr :=
  .view .prefixed Expr.asUnary? (.apart (
    .both (.view .op (fun (op, _) => some op) op) (.view .expr (fun (_, e) => some e) operand)))

/-! ## Nil -/

def nil : Pattern .expr := .view .constant Expr.asConstant? (.equals .nil)

/-- Every way to ask whether a value is there: compared with nil on either side, or alone. -/
def nilCheck (value : Expr) : Pattern .expr :=
  .test fun e =>
    e == .binary value .unequals .nil || e == .binary .nil .unequals value || e == value

/-- Every way to ask whether a value is missing: compared with nil on either side, or negated. -/
def nilCompare (value : Expr) : Pattern .expr :=
  .test fun e =>
    e == .binary value .equals .nil || e == .binary .nil .equals value
      || e == .unary .negate value

/-! ## Links, from the outermost inwards -/

/-- An expression with one link behind it. -/
def linked (base : Pattern .expr) (link : Pattern .link) : Pattern .expr :=
  .view .linked Expr.unlink? (.apart (
    .both (.view .expr (fun (e, _) => some e) (.apart base))
      (.view .link (fun (_, l) => some l) link)))

/-- A member access whose name matches. -/
def memberLink (name : Pattern .name) : Pattern .link := .view .name Link.asMember? name

/-- A call with exactly these arguments. -/
def callLink (arguments : List (Labelled Expr)) : Pattern .link :=
  .view .arguments Link.asCall? (.test (Expr.sameArguments · arguments))

/-- A subscript whose index matches. -/
def subscriptLink (index : Pattern .expr) : Pattern .link := .view .expr Link.asSubscript? index

/-- A member of what matches. -/
def dot (base : Pattern .expr) (name : Pattern .name) : Pattern .expr :=
  base.linked (memberLink name)

/-- A call of what matches, with exactly these arguments. -/
def call (callee : Pattern .expr) (arguments : List (Labelled Expr)) : Pattern .expr :=
  callee.linked (callLink arguments)

/-- A call of a method without arguments. -/
def callMethod (receiver : Pattern .expr) (name : Pattern .name) : Pattern .expr :=
  (receiver.dot name).call []

def subscript (base index : Pattern .expr) : Pattern .expr := base.linked (subscriptLink index)

/-! ## Chains, in the order of the text -/

/-- The base of a chain. -/
def chainBase (p : Pattern .expr) : Pattern .chain := .view .expr (fun c : Chain => some c.base) p

/-- The link at a position, counted from the base. -/
def chainLink (position : Nat) (p : Pattern .link) : Pattern .chain :=
  .view .link (fun c : Chain => c.links[position]?) p

/-- Exactly so many links. -/
def chainLength (n : Nat) : Pattern .chain := .test fun c => c.links.length == n

/-- An expression that ends in a link and whose chain matches. -/
def inverted (p : Pattern .chain) : Pattern .expr :=
  .view .chain (fun e : Expr => if e.isLinked then some (Chain.ofExpr e) else none) p

/-! ## Anywhere inside -/

/-- The expression, or the first one inside it, that matches. Closures are not entered. -/
def findAny (p : Pattern .expr) : Pattern .expr := .first .expr (Expr.sequence false) p

end PatternOver

end HeaderBridge
