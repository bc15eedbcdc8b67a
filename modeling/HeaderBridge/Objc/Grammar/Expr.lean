/-
  The grammar of C expressions, by operator precedence. Every operator has a power on its left
  and one on its right; an operand goes on to the right as long as the operators there are at
  least as strong as what waits on its left. Equal operators group to the left if their right
  power is the greater one, else to the right.

  The rules for the parts of an expression take the rule for a whole expression as a parameter,
  so only one definition recurs.
-/
import HeaderBridge.Objc.Expr
import HeaderBridge.Objc.Grammar.TypeName

namespace HeaderBridge.Grammar

open Rule

/-! ## Operators -/

/-- What an operator between two operands makes of them. -/
inductive Joint where
  | assign (op : ObjcAssign)
  | ternary
  | binary (op : ObjcBinary)
  deriving DecidableEq

/-- The operator that a token stands for between two operands. -/
def jointOf? : TokenKind → Option Joint
  | .eq => some (.assign .assign)
  | .plusEq => some (.assign .add)
  | .minusEq => some (.assign .sub)
  | .starEq => some (.assign .mul)
  | .slashEq => some (.assign .div)
  | .question => some .ternary
  | .pipePipe => some (.binary .or)
  | .ampAmp => some (.binary .and)
  | .pipe => some (.binary .bitOr)
  | .caret => some (.binary .bitXor)
  | .amp => some (.binary .bitAnd)
  | .eqEq => some (.binary .eq)
  | .notEq => some (.binary .notEq)
  | .less => some (.binary .less)
  | .greater => some (.binary .greater)
  | .lessEq => some (.binary .lessEq)
  | .greaterEq => some (.binary .greaterEq)
  | .shiftLeft => some (.binary .shl)
  | .shiftRight => some (.binary .shr)
  | .plus => some (.binary .add)
  | .minus => some (.binary .sub)
  | .star => some (.binary .mul)
  | .slash => some (.binary .div)
  | .percent => some (.binary .rem)
  | _ => none

/-- How strongly an operator holds the operands on its left and on its right. -/
def Joint.powers : Joint → Nat × Nat
  | .assign _ => (2, 1)
  | .ternary => (4, 3)
  | .binary .or => (5, 6)
  | .binary .and => (7, 8)
  | .binary .bitOr => (9, 10)
  | .binary .bitXor => (11, 12)
  | .binary .bitAnd => (13, 14)
  | .binary .eq | .binary .notEq => (15, 16)
  | .binary .less | .binary .greater | .binary .lessEq | .binary .greaterEq => (17, 18)
  | .binary .shl | .binary .shr => (19, 20)
  | .binary .add | .binary .sub => (21, 22)
  | .binary .mul | .binary .div | .binary .rem => (23, 24)

/-- The operator that a token stands for in front of an operand. -/
def unaryOf? : TokenKind → Option ObjcUnary
  | .minus => some .neg
  | .plus => some .plus
  | .bang => some .not
  | .tilde => some .bitNot
  | _ => none

/-- How strongly an operator in front, a cast or `sizeof` holds its operand. -/
def unaryPower : Nat := 25

/-! ## Literals and words -/

/-- What stands between the quotes of a literal, whose at sign does not count. -/
def unquoted (literal : String) : String :=
  let cs := literal.toList
  let cs := if cs.head? = some '@' then cs.drop 1 else cs
  String.ofList (cs.drop 1).dropLast

/-- The quotes of a literal and its at sign are taken off, and nothing else. -/
theorem toList_unquoted {quote : Char} {sign body : List Char} {text : String}
    (hquote : quote ≠ '@') (hsign : sign = [] ∨ sign = ['@'])
    (htext : text.toList = sign ++ quote :: (body ++ [quote])) :
    (unquoted text).toList = body := by
  unfold unquoted
  rw [htext]
  rcases hsign with rfl | rfl <;> simp [hquote]

/-- The literal that a word stands for. -/
def literalWord? (word : String) : Option ObjcLiteral :=
  if word = "true" ∨ word = "YES" then some (.bool true)
  else if word = "false" ∨ word = "NO" then some (.bool false)
  else if word = "nil" ∨ word = "Nil" ∨ word = "NULL" then some .nil
  else none

/-- Reads strings that follow each other as one. -/
def strings : Rule ObjcLiteral := do
  let before ← state
  modify (·.readWhile fun ts => ReadState.kindOf ts == .stringLiteral)
  let after ← state
  let tokens := before.rest.take (after.position - before.position)
  return .string (String.join (tokens.map fun t => unquoted t.text))

/-! ## Casts -/

/-- The tokens that can only start an operand, so that a type in parentheses in front of one is a
    cast. -/
def startsOperand : TokenKind → Bool
  | .identifier | .intLiteral | .floatLiteral | .stringLiteral | .charLiteral | .leftParen
  | .leftBracket | .bang | .tilde => true
  | _ => false

/-- The names of types that no variable can have. -/
def typeWords : List String := [
  "char", "short", "int", "long", "float", "double", "signed", "unsigned", "void", "bool",
  "_Bool", "BOOL", "id"]

/-- Whether a name in parentheses with a sign behind it must be a type, so that the sign belongs
    to the operand of a cast. Any other name is a value, and the sign an operator. -/
def castsSigned (type : ObjcType) : Bool :=
  type.isPointer || type.baseName.contains ' ' || typeWords.contains type.baseName

/-- A type in parentheses that something follows which it can be a cast of. -/
def castType : Rule ObjcType := do
  let _ ← advance
  let name ← typeName
  let _ ← expect .rightParen .parenthesisAfterType
  let next := (← state).current
  if startsOperand next || ((next == .plus || next == .minus) && castsSigned name.type) then
    return name.type
  else failHere .castOperand

/-- A type in parentheses. -/
def typeInParens : Rule ObjcType := do
  let _ ← advance
  let name ← typeName
  let _ ← expect .rightParen .parenthesisAfterType
  return name.type

/-! ## Parts of expressions

The parameter `expr` reads an expression whose operators are at least as strong as its number. -/

/-- What stands behind `sizeof` and a type in parentheses, if there is one: nothing, or else a
    value. -/
def sizeOfOperand (expr : Nat → Rule ObjcExpr) : Option ObjcType → Rule ObjcExpr
  | some type => return .sizeOfType type
  | none => return .sizeOfValue (← expr unaryPower)

/-- The operand of `sizeof`: a type in parentheses, or a value. -/
def sizeOf (expr : Nat → Rule ObjcExpr) : Rule ObjcExpr := do
  let _ ← advance
  let type ← if (← state).current = .leftParen then attempt typeInParens else pure none
  sizeOfOperand expr type

/-- A cast, or an expression in parentheses. -/
def castOrGroup (expr : Nat → Rule ObjcExpr) : Rule ObjcExpr := do
  match ← attempt castType with
  | some type => return .cast type (← expr unaryPower)
  | none =>
    let _ ← advance
    let inner ← expr 0
    let _ ← expect .rightParen .groupEnd
    return .paren inner

/-- The arguments of a call from the first on. -/
def moreArguments (expr : Nat → Rule ObjcExpr) :
    (fuel : Nat) → (read : Array ObjcExpr) → Rule (Array ObjcExpr)
  | 0, _ => breakWith .exhausted
  | fuel + 1, read => do
    let read := read.push (← expr 0)
    if ← eat .comma then moreArguments expr fuel read else return read

/-- The arguments of a call, in their parentheses. -/
def callArguments (expr : Nat → Rule ObjcExpr) : Rule (List ObjcExpr) := do
  let _ ← advance
  let s ← state
  let read ←
    if s.current = .rightParen then pure #[] else moreArguments expr (s.weight + 1) #[]
  let _ ← expect .rightParen .argumentsEnd
  return read.toList

/-- The arguments of a message behind the first: further keywords, or values behind commas. -/
def messageArguments (expr : Nat → Rule ObjcExpr) :
    (fuel : Nat) → (selector : String) → (read : Array (Labelled ObjcExpr)) →
      Rule (String × Array (Labelled ObjcExpr))
  | 0, _, _ => breakWith .exhausted
  | fuel + 1, selector, read => do
    let s ← state
    if s.current = .identifier && s.second = .colon then
      let label := s.currentText
      let _ ← advance
      let _ ← advance
      let value ← expr 0
      messageArguments expr fuel (selector ++ label ++ ":") (read.push ⟨some label, value⟩)
    else if ← eat .comma then
      let value ← expr 0
      messageArguments expr fuel selector (read.push ⟨none, value⟩)
    else return (selector, read)

/-- A message in brackets. -/
def message (expr : Nat → Rule ObjcExpr) : Rule ObjcExpr := do
  let _ ← advance
  let receiver ← expr 0
  let first ← identifier .messageSelector
  let (selector, arguments) ←
    if ← eat .colon then do
      let value ← expr 0
      messageArguments expr ((← state).weight + 1) (first.name ++ ":") #[⟨none, value⟩]
    else pure (first.name, #[])
  let _ ← expect .rightBracket .messageEnd
  return .message receiver selector arguments.toList

/-- A word: a literal, `sizeof` with its operand, or a name. -/
def word (expr : Nat → Rule ObjcExpr) : Rule ObjcExpr := do
  let text := (← state).currentText
  match literalWord? text with
  | some literal =>
    let _ ← advance
    return .literal literal
  | none =>
    if text = "sizeof" then sizeOf expr
    else
      let _ ← advance
      return .ident text

/-- The front of an expression, up to the first operator behind an operand. -/
def operand (expr : Nat → Rule ObjcExpr) : Rule ObjcExpr := do
  let s ← state
  match unaryOf? s.current with
  | some op =>
    let _ ← advance
    return .unary op (← expr unaryPower)
  | none =>
    match s.current with
    | .intLiteral =>
      let _ ← advance
      return .literal (.int s.currentText)
    | .floatLiteral =>
      let _ ← advance
      return .literal (.float s.currentText)
    | .stringLiteral => return .literal (← strings)
    | .charLiteral =>
      let _ ← advance
      return .literal (.char (unquoted s.currentText))
    | .identifier => word expr
    | .leftParen => castOrGroup expr
    | .leftBracket => message expr
    | _ => failHere .expression

/-- What an operator makes of the operand on its left and the text on its right. -/
def joined (expr : Nat → Rule ObjcExpr) (joint : Joint) (lhs : ObjcExpr) : Rule ObjcExpr := do
  let right := joint.powers.2
  match joint with
  | .assign op => return .assign op lhs (← expr right)
  | .binary op => return .binary op lhs (← expr right)
  | .ternary =>
    let yes ← expr 0
    let _ ← expect .colon .ternaryColon
    return .ternary lhs yes (← expr right)

/-- An operand with everything behind it that belongs to it: calls, members and subscripts
    always, and operators of at least a certain power. -/
def extended (expr : Nat → Rule ObjcExpr) (power : Nat) :
    (fuel : Nat) → (lhs : ObjcExpr) → Rule ObjcExpr
  | 0, _ => breakWith .exhausted
  | fuel + 1, lhs => do
    let kind := (← state).current
    match kind with
    | .leftParen =>
      let arguments ← callArguments expr
      extended expr power fuel (.call lhs arguments)
    | .dot | .arrow =>
      let _ ← advance
      let name ← identifier .memberName
      extended expr power fuel (.member lhs name.name (kind == .arrow))
    | .leftBracket =>
      let _ ← advance
      let index ← expr 0
      let _ ← expect .rightBracket .subscriptEnd
      extended expr power fuel (.subscript lhs index)
    | _ =>
      match jointOf? kind with
      | none => return lhs
      | some joint =>
        if joint.powers.1 < power then return lhs
        else
          let _ ← advance
          let whole ← joined expr joint lhs
          extended expr power fuel whole

/-! ## Whole expressions -/

/-- An expression whose operators have at least a certain power. -/
def expressionFrom : (fuel : Nat) → (power : Nat) → Rule ObjcExpr
  | 0, _ => breakWith .exhausted
  | fuel + 1, power => do
    let first ← operand (expressionFrom fuel)
    extended (expressionFrom fuel) power ((← state).weight + 1) first

/-- An expression. Each one inside another starts behind a token of the outer one, so the tokens
    bound the depth. -/
def expression : Rule ObjcExpr := do
  expressionFrom ((← state).weight + 1) 0

end HeaderBridge.Grammar
