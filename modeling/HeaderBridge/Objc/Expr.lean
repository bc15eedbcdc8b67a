/-
  Expressions of C and Objective-C, as they stand in the bodies of macros. Literals keep their
  spelling.
-/
import HeaderBridge.Labelled
import HeaderBridge.Objc.Type

namespace HeaderBridge

inductive ObjcLiteral where
  /-- An integer with its base mark and suffixes. -/
  | int (spelling : String)
  /-- A floating number with its suffix. -/
  | float (spelling : String)
  | bool (value : Bool)
  /-- What stands between the quotes of a string. -/
  | string (contents : String)
  /-- What stands between the quotes of a character. -/
  | char (contents : String)
  | nil

inductive ObjcUnary where
  | neg
  | plus
  | not
  | bitNot
  deriving DecidableEq

inductive ObjcBinary where
  | add | sub | mul | div | rem | shl | shr | less | greater | lessEq | greaterEq | eq | notEq
  | bitAnd | bitXor | bitOr | and | or
  deriving DecidableEq

inductive ObjcAssign where
  | assign
  | add
  | sub
  | mul
  | div
  deriving DecidableEq

inductive ObjcExpr where
  | literal (value : ObjcLiteral)
  | ident (name : String)
  | paren (inner : ObjcExpr)
  | cast (type : ObjcType) (operand : ObjcExpr)
  | sizeOfType (type : ObjcType)
  | sizeOfValue (value : ObjcExpr)
  | unary (op : ObjcUnary) (operand : ObjcExpr)
  | binary (op : ObjcBinary) (lhs rhs : ObjcExpr)
  | assign (op : ObjcAssign) (lhs rhs : ObjcExpr)
  | ternary (condition yes no : ObjcExpr)
  /-- A member behind a point, or behind an arrow. -/
  | member (base : ObjcExpr) (name : String) (arrow : Bool)
  | call (callee : ObjcExpr) (arguments : List ObjcExpr)
  | subscript (base index : ObjcExpr)
  /-- A message to a receiver. The selector joins all keywords; the first argument and those
      behind a comma have no label. -/
  | message (receiver : ObjcExpr) (selector : String) (arguments : List (Labelled ObjcExpr))

namespace ObjcExpr

mutual

/-- The expression and everything inside it, each before its parts and the parts in the order of
    the text. -/
def sequence : ObjcExpr → List ObjcExpr
  | e@(.literal _) => [e]
  | e@(.ident _) => [e]
  | e@(.sizeOfType _) => [e]
  | e@(.paren inner) => e :: sequence inner
  | e@(.cast _ operand) => e :: sequence operand
  | e@(.sizeOfValue value) => e :: sequence value
  | e@(.unary _ operand) => e :: sequence operand
  | e@(.member base _ _) => e :: sequence base
  | e@(.binary _ lhs rhs) => e :: (sequence lhs ++ sequence rhs)
  | e@(.assign _ lhs rhs) => e :: (sequence lhs ++ sequence rhs)
  | e@(.ternary condition yes no) => e :: (sequence condition ++ sequence yes ++ sequence no)
  | e@(.call callee arguments) => e :: (sequence callee ++ sequenceAll arguments)
  | e@(.subscript base index) => e :: (sequence base ++ sequence index)
  | e@(.message receiver _ arguments) => e :: (sequence receiver ++ sequenceLabelled arguments)

def sequenceAll : List ObjcExpr → List ObjcExpr
  | [] => []
  | e :: es => sequence e ++ sequenceAll es

def sequenceLabelled : List (Labelled ObjcExpr) → List ObjcExpr
  | [] => []
  | a :: as => sequence a.value ++ sequenceLabelled as

end

end ObjcExpr

end HeaderBridge
