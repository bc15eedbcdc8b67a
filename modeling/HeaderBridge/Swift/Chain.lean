/-
  Chains of member accesses, calls and subscripts. In the tree the last link is outermost; a
  chain lists the links in the order in which they are written, behind the base that they start
  from.
-/
import HeaderBridge.Swift.Expr

namespace HeaderBridge

/-- One link of a chain. -/
inductive Link where
  | member (name : String)
  | call (arguments : List (Labelled Expr))
  | subscript (index : Expr)

/-- An expression with one more link. -/
def Expr.link (e : Expr) : Link → Expr
  | .member name => .member e name
  | .call arguments => .call e arguments
  | .subscript index => .subscript e index

/-- The outermost link, with the expression that it applies to. -/
def Expr.unlink? : Expr → Option (Expr × Link)
  | .member base name => some (base, .member name)
  | .call callee arguments => some (callee, .call arguments)
  | .subscript base index => some (base, .subscript index)
  | _ => none

/-- Whether the expression ends in a link. -/
def Expr.isLinked (e : Expr) : Bool := e.unlink?.isSome

/-- A base with the links behind it, in order. -/
structure Chain where
  base : Expr
  links : List Link

namespace Chain

/-- Adds the links outside the given ones to a chain. -/
def ofExpr.go : Expr → List Link → Chain
  | .member base name, links => go base (.member name :: links)
  | .call callee arguments, links => go callee (.call arguments :: links)
  | .subscript base index, links => go base (.subscript index :: links)
  | e, links => ⟨e, links⟩

/-- The links of an expression down to a base that has none. -/
def ofExpr (e : Expr) : Chain := ofExpr.go e []

/-- The expression that the chain spells out. -/
def toExpr (c : Chain) : Expr := c.links.foldl Expr.link c.base

def isEmpty (c : Chain) : Bool := c.links.isEmpty

end Chain

end HeaderBridge
