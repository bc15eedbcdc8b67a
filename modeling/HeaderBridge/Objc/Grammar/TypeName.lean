/-
  The grammar of type names: qualifiers, a name, arguments in angle brackets, stars. A C type of
  several words is one name. Whatever fails inside, the error says that a type name was
  expected.
-/
import HeaderBridge.Objc.Rule

namespace HeaderBridge.Grammar

open Rule

/-- Qualifiers that say nothing about the type itself. -/
def silentQualifiers : List String := [
  "const", "volatile", "IBOutlet", "__weak", "__strong", "__unsafe_unretained",
  "__autoreleasing", "__kindof", "__block"]

/-- The words of C that may have another word of the same type behind them. -/
def openingWords : List String := ["unsigned", "signed", "long", "short"]

/-- The words of C that may stand behind such a word. -/
def followingWords : List String := ["int", "char", "short", "long", "double"]

/-- Whether the first of some tokens is a qualifier. -/
def startsWithQualifier : List Token → Bool
  | [] => false
  | t :: _ =>
    t.kind == .identifier
      && ((Nullability.ofWord? t.text).isSome || silentQualifiers.contains t.text)

/-- The nullability that the last of some words states, where one of them states any. -/
def lastNullability (words : List Token) : Option Nullability :=
  words.foldl (fun found t => (Nullability.ofWord? t.text).or found) none

/-- Reads qualifiers. The last word on nullability counts. -/
def qualifiers : Rule (Option Nullability) := do
  let before ← state
  modify (·.readWhile startsWithQualifier)
  let after ← state
  return lastNullability (before.rest.take (after.position - before.position))

/-- The words of a name behind the word `last`, if that lets another one follow. -/
def nameWords (last : String) : List Token → List String
  | [] => []
  | t :: ts =>
    if openingWords.contains last && t.kind == .identifier && followingWords.contains t.text then
      t.text :: nameWords t.text ts
    else []

/-- Reads the name of a type, all its words joined by blanks. -/
def baseName : Rule String := do
  let first ← identifier .typeName
  let words := nameWords first.name (← state).rest
  modify fun s => words.foldl (fun s _ => s.advance) s
  return " ".intercalate (first.name :: words)

/-- Reads stars, each with the qualifiers behind it. -/
def stars : (fuel : Nat) → ObjcType → Option Nullability → Rule (ObjcType × Option Nullability)
  | 0, _, _ => breakWith .exhausted
  | fuel + 1, type, found => do
    if ← eat .star then
      stars fuel (.pointer type) ((← qualifiers).or found)
    else
      return (type, found)

/-- A type without qualifiers in front, with the nullability that stands behind its stars. -/
def objcType : (fuel : Nat) → Rule (ObjcType × Option Nullability)
  | 0 => breakWith .exhausted
  | fuel + 1 => do
    let name ← baseName
    let type ←
      if (← state).current = .less then
        if name = "id" then do
          let protocols ← list false .less .greater (Ident.name <$> identifier .conformance)
          pure (ObjcType.id protocols)
        else do
          let argument : Rule ObjcType := do
            let _ ← qualifiers
            return (← objcType fuel).1
          pure (ObjcType.generic name (← list false .less .greater argument))
      else pure (if name = "id" then ObjcType.id [] else ObjcType.named name)
    stars ((← state).weight + 1) type none

/-- The same rule, with every failure turned into one of another cause at the same place. -/
def failingAs {α : Type} (cause : SyntaxError.Cause) (r : Rule α) : Rule α := fun s =>
  match r s with
  | .failed e s => .failed ⟨cause, e.span, false⟩ s
  | other => other

/-- A type name. Nullability may stand in front of the type or behind its stars; the latter
    counts. -/
def typeName : Rule TypeName := do
  let start := (← state).currentSpan.start
  let inFront ← qualifiers
  let (type, behind) ← failingAs .typeName (objcType ((← state).weight + 1))
  match Span.between start (← state).lastEnd with
  | .ok span => return ⟨type, behind.or inFront, span⟩
  | .error f => breakWith f

end HeaderBridge.Grammar
