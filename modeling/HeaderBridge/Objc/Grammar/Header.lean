/-
  The grammar of headers: classes and protocols with their properties and methods. A broken
  declaration costs an error and the text up to a place where another one may start; everything
  that is none of these declarations is passed over.
-/
import HeaderBridge.Objc.Grammar.TypeName

namespace HeaderBridge.Grammar

open Rule

/-! ## Where reading goes on after an error -/

/-- The tokens up to which a broken member is passed over. -/
def isMemberSync (kind : TokenKind) : Bool :=
  kind.isAtKeyword || kind == .plus || kind == .minus || kind == .endOfFile

/-- The tokens that end the body of a declaration. -/
def endsBody : TokenKind → Bool
  | .atEnd | .endOfFile | .atInterface | .atProtocol | .atImplementation => true
  | _ => false

/-- Whether a member can start at the first of some tokens: a directive, or a sign with a return
    type behind it. A sign alone may be an operator in a broken declaration. -/
def startsMember : List Token → Bool
  | [] => true
  | t :: ts =>
    t.kind.isAtKeyword
      || ((t.kind == .plus || t.kind == .minus) && ReadState.kindOf ts == .leftParen)

/-- Notes the error of a broken member and passes over what is left of it. -/
def recoverMember (r : Rule Unit) : Rule Unit := fun s =>
  match r s with
  | .failed e s => .done () ((s.report e).skipUntil isMemberSync)
  | other => other

/-- Notes the error of a broken declaration and passes over what is left of it. -/
def recoverDeclaration (r : Rule Unit) : Rule Unit := fun s =>
  match r s with
  | .failed e s => (do let _ ← eat .atEnd) ((s.report e).skipUntil endsBody)
  | other => other

/-! ## Properties -/

/-- A word in the parentheses of a property, which may name an accessor. -/
def propertyModifier : Rule Unit := do
  let name ← identifier .propertyModifier
  let value ←
    if ← eat .eq then do
      let accessor ← identifier .accessorName
      let colon ← eat .colon
      pure (some (if colon then accessor.name ++ ":" else accessor.name))
    else pure none
  leafFrom (.modifier ⟨name.name, value⟩) name.span.start

def modifierList : Rule Unit :=
  withNode .modifierList do
    let _ ← list true .leftParen .rightParen propertyModifier

/-- The name of a property, unless its type was so broken that no name is left to read. -/
def propertyName (type : Slot TypeName) : Rule (Slot Ident) := do
  let sync (kind : TokenKind) : Bool := kind == .semicolon || isMemberSync kind
  let s ← state
  if type.isInvalid && s.current != .identifier then
    modify (·.skipUntil sync)
    return .invalid s.currentSpan
  else recover (identifier .propertyName) sync

/-- A property. An error in its type or name has been noted when the semicolon is looked for, so
    that a missing one is not noted again. -/
def property : Rule Unit := do
  let isOptional := (← state).inOptional
  withNode (.property ⟨.missing, .missing, isOptional⟩) do
    keywordHere
    if (← state).current = .leftParen then modifierList
    let type ← recover typeName fun kind =>
      kind == .identifier || kind == .semicolon || isMemberSync kind
    let name ← propertyName type
    setKind (.property ⟨type, name, isOptional⟩)
    if (type.isInvalid || name.isInvalid) && (← state).current != .semicolon then return
    punctuation .semicolon .propertyEnd

/-! ## Methods -/

/-- A type in parentheses. -/
def parenthesizedType : Rule TypeName := do
  let _ ← advance
  let type ← typeName
  let _ ← expect .rightParen .parenthesisAfterType
  return type

/-- A type in parentheses, if there is a parenthesis. -/
def optionalType : Rule (Option TypeName) := do
  if (← state).current = .leftParen then some <$> parenthesizedType else return none

/-- The pieces of a selector from a colon on. The first piece has the label `keyword`. -/
def keywordParts :
    (fuel : Nat) → (keyword : Option Ident) → (read : Array KeywordPart) →
      Rule (Array KeywordPart)
  | 0, _, _ => breakWith .exhausted
  | fuel + 1, keyword, read => do
    let _ ← advance
    let type ← optionalType
    let name ← identifier .parameterName
    let read := read.push ⟨keyword, type, name⟩
    let s ← state
    if s.current = .identifier && s.second = .colon then
      let next ← identifier .selector
      keywordParts fuel (some next) read
    else if s.current = .colon then keywordParts fuel none read
    else return read

/-- The mark of a method with any number of arguments, which is not kept. -/
def variadicMark : Rule Unit := do
  if ← eat .comma then modify (·.readWhile fun ts => ReadState.kindOf ts == .dot)

/-- A selector that is no piece with a colon: a name, if one was read. -/
def simpleSelector : Option Ident → Rule Selector
  | some name => return .simple name
  | none => failHere .selector

/-- What stands behind the first word of a selector, if there is one: pieces with colons, or else
    nothing. -/
def selectorFrom (first : Option Ident) : Rule Selector := do
  let s ← state
  if s.current = .colon then
    let parts ← keywordParts (s.weight + 1) first #[]
    variadicMark
    return .keywords parts.toList
  else simpleSelector first

/-- A name alone, or pieces with colons. -/
def selector : Rule Selector := do
  let first ←
    if (← state).current = .identifier then some <$> identifier .selector else pure none
  selectorFrom first

/-- Reads the words behind a selector, each with a group in parentheses if there is one. -/
def readAttributes : (fuel : Nat) → ReadState → ReadState
  | 0, s => s
  | fuel + 1, s =>
    if s.current = .identifier then
      let s := s.advance
      readAttributes fuel
        (if s.current = .leftParen then s.skipGroup .leftParen .rightParen else s)
    else s

def method : Rule Unit := do
  let s ← state
  let start : MethodData := ⟨s.current == .plus, none, .missing, s.inOptional⟩
  withNode (.method start) do
    punctuationHere
    let returns ← optionalType
    let found ← selector
    setKind (.method { start with returns, selector := .valid found })
    modify fun s => readAttributes s.weight s
    punctuation .semicolon .methodEnd

/-! ## Bodies -/

/-- Notes an unknown member and passes over it: its first token, then everything through a
    semicolon or up to the start of a member. A node covers what was passed over. -/
def unknownMember (cause : SyntaxError.Cause) : Rule Unit := do
  let s ← state
  report (s.errorHere cause)
  let start := (← advance).start
  modify (·.readWhile fun ts => !startsMember ts && ReadState.kindOf ts != .semicolon)
  let _ ← eat .semicolon
  leafFrom .invalid start

/-- The members of a declaration, up to the end of its body. -/
def memberList (cause : SyntaxError.Cause) (inProtocol : Bool) : (fuel : Nat) → Rule Unit
  | 0 => breakWith .exhausted
  | fuel + 1 => do
    let kind := (← state).current
    if endsBody kind then return
    match kind with
    | .atProperty => recoverMember property
    | .plus | .minus => recoverMember method
    | .atOptional | .atRequired =>
      if inProtocol then
        modify fun s => { s with inOptional := kind == .atOptional }
        keywordHere
      else unknownMember cause
    | _ => unknownMember cause
    memberList cause inProtocol fuel

/-- The body of a declaration. The members behind it are not optional any more. -/
def body (cause : SyntaxError.Cause) (inProtocol : Bool) : Rule Unit := do
  memberList cause inProtocol ((← state).weight + 1)
  modify fun s => { s with inOptional := false }

/-! ## Declarations -/

/-- The protocols that a declaration conforms to, in angle brackets. -/
def protocolList : Rule Unit :=
  withNode (.protocolList []) do
    setKind (.protocolList (← list true .less .greater (identifier .conformance)))

/-- The list of protocols, if there is one. A broken list does not break the declaration. -/
def optionalProtocolList : Rule Unit := fun s =>
  if s.current = .less then
    match protocolList s with
    | .failed e s =>
      let s := (s.report e).skipUntil fun kind => kind == .greater || isMemberSync kind
      (do let _ ← eat .greater) s
    | other => other
  else .done () s

/-- The superclass, behind a colon. -/
def optionalSuperclass : Rule Unit := do
  if (← state).current = .colon then
    punctuationHere
    let name ← identifier .superclassName
    leaf (.superclassName name) name.span

/-- The instance variables of a class in braces, which are not kept. -/
def variableBlock : Rule Unit := modify fun s =>
  if s.current = .leftBrace then s.skipGroup .leftBrace .rightBrace else s

def classInterface : Rule Unit :=
  withNode (.classInterface .missing) do
    keywordHere
    let name ← identifier .className
    setKind (.classInterface (.valid name))
    optionalSuperclass
    optionalProtocolList
    variableBlock
    body .classMember false
    keyword .atEnd .classEnd

def protocolDeclaration : Rule Unit :=
  withNode (.protocolDeclaration .missing) do
    keywordHere
    let name ← identifier .protocolName
    setKind (.protocolDeclaration (.valid name))
    optionalProtocolList
    body .protocolMember true
    keyword .atEnd .protocolEnd

/-- Passes over a declaration that ends in a semicolon. -/
def skipDeclaration : Rule Unit := do
  modify (·.skipUntil (· == .semicolon))
  let _ ← eat .semicolon

/-- Passes over an implementation, to its end. -/
def skipImplementation : Rule Unit := do
  modify (·.skipUntil (· == .atEnd))
  let _ ← eat .atEnd

/-- Whether the current token starts a protocol that is only named here. -/
def isForwardProtocol (s : ReadState) : Bool :=
  s.second == .identifier && (s.third == .semicolon || s.third == .comma)

theorem isForwardProtocol_eq_false {s : ReadState} (h : s.third ≠ .semicolon ∧ s.third ≠ .comma) :
    isForwardProtocol s = false := by
  unfold isForwardProtocol
  rw [beq_false_of_ne h.1, beq_false_of_ne h.2, Bool.or_false, Bool.and_false]

/-- The declarations of a header, to the end of the file. -/
def declarations : (fuel : Nat) → Rule Unit
  | 0 => breakWith .exhausted
  | fuel + 1 => do
    let s ← state
    match s.current with
    | .endOfFile => return
    | .atInterface => recoverDeclaration classInterface
    | .atProtocol =>
      if isForwardProtocol s then skipDeclaration else recoverDeclaration protocolDeclaration
    | .atClass => skipDeclaration
    | .atImplementation => skipImplementation
    | _ => do let _ ← advance
    declarations fuel

/-- A whole header. -/
def header : Rule Unit := do declarations ((← state).weight + 1)

end HeaderBridge.Grammar
