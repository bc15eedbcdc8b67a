/-
  Rules of a grammar, as functions of the state of a parser. A rule succeeds with a value, fails
  with an error, or breaks on a fault; on failure the state is the one that the failure was
  noticed in, so that the caller can go on from there.
-/
import HeaderBridge.Objc.ReadState

namespace HeaderBridge

/-- What a rule comes to. -/
inductive Outcome (α : Type) where
  | done (value : α) (state : ReadState)
  | failed (error : SyntaxError) (state : ReadState)
  | broken (fault : Fault)

/-- A rule that reads a value. -/
def Rule (α : Type) : Type := ReadState → Outcome α

namespace Rule

instance : Monad Rule where
  pure value := fun s => .done value s
  bind r next := fun s =>
    match r s with
    | .done value s => next value s
    | .failed e s => .failed e s
    | .broken f => .broken f

/-- The state at this point. -/
def state : Rule ReadState := fun s => .done s s

/-- Changes the state. -/
def modify (change : ReadState → ReadState) : Rule Unit := fun s => .done () (change s)

/-- Changes the state, or breaks. -/
def modifyOrBreak (change : ReadState → Except Fault ReadState) : Rule Unit := fun s =>
  match change s with
  | .ok s => .done () s
  | .error f => .broken f

def breakWith {α : Type} (f : Fault) : Rule α := fun _ => .broken f

/-- Fails at the current token. -/
def failHere {α : Type} (cause : SyntaxError.Cause) : Rule α := fun s =>
  .failed (s.errorHere cause) s

/-! ## Tokens -/

/-- Whether the current token is of a kind. -/
def at? (kind : TokenKind) : Rule Bool := fun s => .done (s.current == kind) s

/-- Reads the current token and answers its span. -/
def advance : Rule Span := fun s => .done s.currentSpan s.advance

/-- Reads the current token if it is of a kind, and answers whether it was. -/
def eat (kind : TokenKind) : Rule Bool := fun s =>
  if s.current = kind then .done true s.advance else .done false s

/-- Reads a token of a kind, or fails. -/
def expect (kind : TokenKind) (cause : SyntaxError.Cause) : Rule Span := fun s =>
  if s.current = kind then .done s.currentSpan s.advance else .failed (s.errorHere cause) s

/-- Reads a name, or fails. -/
def identifier (cause : SyntaxError.Cause) : Rule Ident := fun s =>
  if s.current = .identifier then .done ⟨s.currentText, s.currentSpan⟩ s.advance
  else .failed (s.errorHere cause) s

/-! ## Errors and going back -/

/-- Notes an error. -/
def report (e : SyntaxError) : Rule Unit := modify (·.report e)

/-- Fills a slot. If the rule fails, the error is noted, the tokens up to `sync` are passed over,
    and the slot says where it failed. -/
def recover {α : Type} (r : Rule α) (sync : TokenKind → Bool) : Rule (Slot α) := fun s =>
  match r s with
  | .done value s => .done (.valid value) s
  | .failed e s => .done (.invalid e.span) ((s.report e).skipUntil sync)
  | .broken f => .broken f

/-- Tries a rule. If it fails, the tokens that it read are unread again, what it attached to the
    innermost open node is dropped, and there is no value. -/
def attempt {α : Type} (r : Rule α) : Rule (Option α) := fun s =>
  let mark := s.nodes.checkpoint
  match r { s with speculating := true } with
  | .done value after => .done (some value) { after with speculating := s.speculating }
  | .failed _ after =>
    match after.nodes.restore mark with
    | .ok nodes =>
      let back := after.backTo s.position
      .done none { back with nodes, speculating := s.speculating }
    | .error f => .broken f
  | .broken f => .broken f

/-! ## Nodes -/

/-- The range of a node that started at `start`: up to the last token, if any token was read since
    `position`. -/
def closingRange (start position : Nat) (s : ReadState) : Except Fault (Option Span) :=
  if position < s.position then some <$> Span.between start s.lastEnd else .ok none

/-- Closes the innermost open node, which must not be the outermost one, and gives it its range. -/
def closeNode (start position depth : Nat) (s : ReadState) : Except Fault ReadState := do
  if s.nodes.depth ≠ depth + 1 then
    throw .unbalancedRule
  let range ← closingRange start position s
  match ← (s.nodes.update fun n => { n with range }).close with
  | (none, nodes) => return { s with nodes }
  | (some _, _) => throw .unbalancedRule

/-- Runs a rule with a new node open. The node takes what the rule attaches, and goes to the node
    around it whether the rule succeeds or fails. -/
def withNode {α : Type} (kind : NodeKind) (r : Rule α) : Rule α := fun s =>
  let start := s.currentSpan.start
  let close := closeNode start s.position s.nodes.depth
  match r { s with nodes := s.nodes.begin kind } with
  | .done value s =>
    match close s with
    | .ok s => .done value s
    | .error f => .broken f
  | .failed e s =>
    match close s with
    | .ok s => .failed e s
    | .error f => .broken f
  | .broken f => .broken f

/-- Says what the innermost open node is. -/
def setKind (kind : NodeKind) : Rule Unit :=
  modify fun s => { s with nodes := s.nodes.update fun n => { n with kind } }

/-- Attaches a node without children. -/
def leaf (kind : NodeKind) (span : Span) : Rule Unit := modifyOrBreak fun s => do
  let (n, nodes) := s.nodes.fresh kind
  return { s with nodes := ← nodes.attach { n with range := some span } }

/-- Attaches a node from `start` to the last token. -/
def leafFrom (kind : NodeKind) (start : Nat) : Rule Unit := do
  match Span.between start (← state).lastEnd with
  | .ok span => leaf kind span
  | .error f => breakWith f

/-- Reads the current token as a directive of the tree. -/
def keywordHere : Rule Unit := do
  let kind := (← state).current
  leaf (.keyword kind) (← advance)

/-- Reads a directive, or fails. -/
def keyword (kind : TokenKind) (cause : SyntaxError.Cause) : Rule Unit := do
  leaf (.keyword kind) (← expect kind cause)

/-- Reads punctuation that the tree shows, or fails. -/
def punctuation (kind : TokenKind) (cause : SyntaxError.Cause) : Rule Unit := do
  leaf (.token kind) (← expect kind cause)

/-- Reads the current token as punctuation of the tree. -/
def punctuationHere : Rule Unit := do
  let kind := (← state).current
  leaf (.token kind) (← advance)

/-! ## Lists -/

/-- A delimiter of a list, which the tree shows if `shown`. -/
def delimiter (shown : Bool) (kind : TokenKind) (cause : SyntaxError.Cause) : Rule Unit := do
  let span ← expect kind cause
  if shown then leaf (.token kind) span

/-- Lets a list that ends in an angle bracket end inside a double one. -/
def splitCloser (closing : TokenKind) : Rule Unit :=
  if closing = .greater then modifyOrBreak ReadState.splitShiftRight else pure ()

/-- The items of a list up to its end, and whether another one was due after a comma. -/
def listItems {α : Type} (shown : Bool) (closing : TokenKind) (item : Rule α) :
    (fuel : Nat) → (due : Bool) → (items : Array α) → Rule (Array α × Bool)
  | 0, _, _ => breakWith .exhausted
  | fuel + 1, due, items => do
    splitCloser closing
    let s ← state
    if s.current = closing || s.current = .endOfFile then
      return (items, due)
    let items := items.push (← item)
    if (← state).current = .comma then
      let span ← advance
      if shown then leaf (.token .comma) span
      listItems shown closing item fuel true items
    else
      return (items, false)

/-- A list of items between two delimiters, with commas between them. An item that is missing
    after a comma is noted, and the list goes on to its end; while the reading may be undone it
    is a failure. -/
def list {α : Type} (shown : Bool) (opening closing : TokenKind) (item : Rule α) :
    Rule (List α) := do
  delimiter shown opening (.listOpening opening)
  let (items, due) ← listItems shown closing item ((← state).weight + 1) false #[]
  if due then
    let s ← state
    if s.speculating then failHere .itemAfterComma
    else report (s.errorHere .itemAfterComma)
  splitCloser closing
  delimiter shown closing (.listClosing closing)
  return items.toList

end Rule

end HeaderBridge
