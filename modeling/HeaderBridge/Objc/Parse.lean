/-
  Reading a header into a tree, and a macro body into an expression. A header always has a tree,
  whatever errors it has; comments are dropped, and preprocessor lines are set aside.
-/
import HeaderBridge.Objc.Grammar.Expr
import HeaderBridge.Objc.Grammar.Header

namespace HeaderBridge

/-- A preprocessor line of a header. -/
structure Directive where
  text : String
  span : Span
  deriving DecidableEq

/-- What reading a header comes to. -/
structure Header where
  root : Node
  /-- The errors in the order in which they were reported. -/
  errors : List SyntaxError
  directives : List Directive
  /-- The log with one record per error behind what it held before. -/
  log : DiagnosticLog

/-- Whether the header has no errors. -/
def Header.ok (h : Header) : Bool := h.errors.isEmpty

/-- The tokens that the grammar sees. -/
def significant (tokens : List Token) : List Token :=
  tokens.filter fun t => t.kind != .comment && t.kind != .directive && t.kind != .endOfFile

/-- The preprocessor lines among some tokens. -/
def directivesOf (tokens : List Token) : List Directive :=
  (tokens.filter (·.kind == .directive)).map fun t => ⟨t.text, t.span⟩

/-- A parser in front of some tokens, with the root of the tree open. -/
def ReadState.start (source : String) (tokens : List Token) (log : DiagnosticLog)
    (origin : Option String) : ReadState where
  passed := []
  rest := significant tokens
  sourceLength := source.utf8ByteSize
  nodes := NodeStack.begin {} .header
  log := log
  origin := origin
  errors := #[]
  speculating := false
  inOptional := false

/-- Closes the root, which covers the whole source. -/
def ReadState.finish (s : ReadState) (directives : List Directive) : Except Fault Header := do
  let whole : Span := ⟨0, s.sourceLength, Nat.zero_le _⟩
  match ← (s.nodes.update fun n => { n with range := some whole }).close with
  | (some root, _) => return ⟨root, s.errors.toList, directives, s.log⟩
  | (none, _) => throw .unbalancedRule

/-- Reads a header, and logs its errors under an origin. -/
def Header.read (source : String) (log : DiagnosticLog := .empty)
    (origin : Option String := none) : Except Fault Header :=
  let tokens := tokenize source
  match Grammar.header (ReadState.start source tokens log origin) with
  | .done _ s => s.finish (directivesOf tokens)
  | .failed _ _ => .error .unbalancedRule
  | .broken f => .error f

/-- A whole text as one expression. -/
def Grammar.wholeExpression : Rule ObjcExpr := do
  if (← Rule.state).current = .endOfFile then Rule.failHere .expression
  else
    let e ← Grammar.expression
    let s ← Rule.state
    if s.current ≠ .endOfFile then Rule.failHere .leftOver
    else
      match s.errors.toList.head? with
      | some error => fun s => .failed error s
      | none => return e

/-- Reads a text that is exactly one expression. -/
def ObjcExpr.read (source : String) : Except Fault (Except SyntaxError ObjcExpr) :=
  match Grammar.wholeExpression (ReadState.start source (tokenize source) .empty none) with
  | .done e _ => .ok (.ok e)
  | .failed error _ => .ok (.error error)
  | .broken f => .error f

end HeaderBridge
