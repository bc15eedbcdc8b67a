/-
  Which macros are constants. A macro without parameters whose body is one expression with a type
  becomes a constant of that type; casts and sizes in it may name scalars alone.
-/
import HeaderBridge.Bridge.ExprReading
import HeaderBridge.Objc.Parse
import HeaderBridge.Plan.Surroundings
import HeaderBridge.Unicode.CharClass

namespace HeaderBridge

/-- A macro as it is written: its name and what stands right behind it. -/
structure MacroDefinition where
  name : String
  body : List Char
  deriving DecidableEq

namespace MacroDefinition

def isNameChar (c : Char) : Bool := c.isAlphanum || c == '_'

/-- The rest of a text behind a word that it starts with. -/
def behind? (word : String) (cs : List Char) : Option (List Char) :=
  if word.toList.isPrefixOf cs then some (cs.drop word.toList.length) else none

/-- The text without the spaces and tabs at its front, of which there must be one. -/
def behindBlanks? (cs : List Char) : Option (List Char) :=
  let rest := cs.dropWhile fun c => c == ' ' || c == '\t'
  if rest.length < cs.length then some rest else none

/-- A directive that defines a macro. -/
def ofDirective? (directive : String) : Option MacroDefinition := do
  let rest ← behind? "#" (Unicode.trimStart directive.toList)
  let rest ← behind? "define" (Unicode.trimStart rest)
  let rest ← behindBlanks? rest
  let name := rest.takeWhile isNameChar
  let first ← name.head?
  if first.isDigit then none
  else return ⟨String.ofList name, rest.dropWhile isNameChar⟩

/-- Whether the macro takes arguments: its name and a parenthesis touch. -/
def isFunction (m : MacroDefinition) : Bool := m.body.head? == some '('

/-- A body in one line. -/
def joined : List Char → List Char
  | '\\' :: '\n' :: cs => ' ' :: joined cs
  | c :: cs => c :: joined cs
  | [] => []

/-- The body as one expression. -/
def expression? (m : MacroDefinition) : Option ObjcExpr :=
  if m.isFunction then none
  else
    match ObjcExpr.read (String.ofList (Unicode.trim (joined m.body))) with
    | .ok (.ok e) => some e
    | _ => none

end MacroDefinition

namespace ObjcExpr

/-- Whether the expression is a cast to, or the size of, a type that is no scalar. -/
def namesForeignType : ObjcExpr → Bool
  | .cast type _ | .sizeOfType type => !type.isScalar
  | _ => false

/-- Whether no cast and no size in the expression names a type that is no scalar. -/
def isScalarOnly (e : ObjcExpr) : Bool := !e.sequence.any namesForeignType

end ObjcExpr

/-- A constant that stands for a macro. -/
structure MacroConstant where
  name : String
  type : SwiftType
  value : Expr

/-- The constant for a directive in a file of a plan. -/
def MacroConstant.ofDirective? (w : Surroundings) (p : Plan) (f : FilePlan) (directive : String) :
    Option MacroConstant := do
  let m ← MacroDefinition.ofDirective? directive
  let e ← m.expression?
  if e.isScalarOnly then
    let value ← e.swift? {}
    return ⟨m.name, ← w.type? p f value, value⟩
  else none

end HeaderBridge
