/-
  Where a parser stands: the tokens that it has read and those that it has not, the nodes that it
  is building, and the errors that it has noted. Only significant tokens are kept. The tokens
  that were read stay at hand, so that a parser can go back to an earlier place.
-/
import HeaderBridge.Objc.NodeStack
import HeaderBridge.Objc.SyntaxError
import HeaderBridge.Source.Diagnostic
import HeaderBridge.Token.Lexer

namespace HeaderBridge

/-- The state of a parser. -/
structure ReadState where
  /-- The tokens that were read, the last one first. -/
  passed : List Token
  /-- The tokens that are still to be read, without the end of the file. -/
  rest : List Token
  /-- The number of bytes of the source. -/
  sourceLength : Nat
  nodes : NodeStack
  log : DiagnosticLog
  /-- The origin under which errors are logged. -/
  origin : Option String
  /-- The errors that were reported, in order. -/
  errors : Array SyntaxError
  /-- A reading is under way that may be undone. -/
  speculating : Bool
  /-- The members that follow are optional. -/
  inOptional : Bool

namespace ReadState

/-! ## Looking ahead -/

/-- The kind of the first of some tokens; behind all tokens lies the end of the file. -/
def kindOf : List Token → TokenKind
  | [] => .endOfFile
  | t :: _ => t.kind

def current (s : ReadState) : TokenKind := kindOf s.rest

/-- The kind of the token behind the current one. -/
def second (s : ReadState) : TokenKind := kindOf (s.rest.drop 1)

/-- The kind of the token two behind the current one. -/
def third (s : ReadState) : TokenKind := kindOf (s.rest.drop 2)

def currentSpan (s : ReadState) : Span :=
  match s.rest with
  | [] => Span.point s.sourceLength
  | t :: _ => t.span

def currentText (s : ReadState) : String :=
  match s.rest with
  | [] => ""
  | t :: _ => t.text

/-- Where the last token that was read ends. -/
def lastEnd (s : ReadState) : Nat :=
  match s.passed with
  | [] => 0
  | t :: _ => t.span.stop

/-- How many tokens were read. -/
def position (s : ReadState) : Nat := s.passed.length

/-- How many steps forward some tokens allow. A double angle bracket counts twice, since it may
    be taken apart. -/
def weightOf (ts : List Token) : Nat :=
  @List.sum Nat _ ⟨0⟩ (ts.map fun t => if t.kind = .shiftRight then 2 else 1)

/-- Bounds how often a parser can still move on. -/
def weight (s : ReadState) : Nat := weightOf s.rest

/-! ## Moving -/

/-- Reads the current token. The end of the file is never read. -/
def advance (s : ReadState) : ReadState :=
  match s.rest with
  | [] => s
  | t :: rest => { s with passed := t :: s.passed, rest }

/-- Goes back until `n` tokens are read. A token that was taken apart stays so. -/
def backTo (s : ReadState) (n : Nat) : ReadState :=
  let undone := s.passed.take (s.passed.length - n)
  { s with passed := s.passed.drop (s.passed.length - n), rest := undone.reverse ++ s.rest }

/-- Reads on while `go` allows it. It sees the tokens that are left, the current one first. -/
def readWhile (go : List Token → Bool) (s : ReadState) : ReadState :=
  move s.passed s.rest
where
  /-- Moves tokens from the unread ones to the read ones. -/
  move (passed : List Token) : List Token → ReadState
    | [] => { s with passed, rest := [] }
    | t :: rest =>
      if go (t :: rest) then move (t :: passed) rest else { s with passed, rest := t :: rest }

/-- Reads up to a token of a certain kind. -/
def skipUntil (stop : TokenKind → Bool) (s : ReadState) : ReadState :=
  s.readWhile fun ts => !stop (kindOf ts)

/-- Reads a group in brackets, with everything inside. Without its end the rest is read. -/
def skipGroup (opening closing : TokenKind) (s : ReadState) : ReadState :=
  move 0 s.passed s.rest
where
  /-- Moves tokens while `depth` brackets are open. -/
  move (depth : Nat) (passed : List Token) : List Token → ReadState
    | [] => { s with passed, rest := [] }
    | t :: rest =>
      if t.kind = opening then move (depth + 1) (t :: passed) rest
      else if t.kind = closing then
        if depth ≤ 1 then { s with passed := t :: passed, rest }
        else move (depth - 1) (t :: passed) rest
      else move depth (t :: passed) rest

/-- Takes a double angle bracket apart, so that each half can close a list. -/
def splitShiftRight (s : ReadState) : Except Fault ReadState :=
  match s.rest with
  | [] => .ok s
  | t :: rest =>
    if t.kind = .shiftRight then do
      let first ← Span.between t.span.start (t.span.start + 1)
      let second ← Span.between (t.span.start + 1) t.span.stop
      return { s with rest := ⟨.greater, ">", first⟩ :: ⟨.greater, ">", second⟩ :: rest }
    else .ok s

/-! ## Noting errors -/

/-- An error at the current token. -/
def errorHere (s : ReadState) (cause : SyntaxError.Cause) : SyntaxError := ⟨cause, s.currentSpan, false⟩

/-- Writes an error to the log and to the list of errors, unless that was done before. -/
def report (s : ReadState) (e : SyntaxError) : ReadState :=
  if e.reported then s
  else
    { s with
      log := s.log.add ⟨.error, e.message, e.span, s.origin⟩
      errors := s.errors.push { e with reported := true } }

end ReadState

end HeaderBridge
