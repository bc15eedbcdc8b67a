/-
  Reading a TOML text from the front. A scan takes characters away and gives a value, or it fails
  and the whole text is refused; there is no error to tell apart from another.
-/
import HeaderBridge.Unicode.CharClass

namespace HeaderBridge.Toml

/-- A step that takes characters from the front of a text. -/
abbrev Scan := StateT (List Char) Option

namespace Scan

/-- What a function on the text takes and leaves. -/
def of {α : Type} (f : List Char → Option (α × List Char)) : Scan α := f

def fail {α : Type} : Scan α := of fun _ => none

/-- The next character, which stays. -/
def peek : Scan (Option Char) := of fun cs => some (cs.head?, cs)

/-- The next character. -/
def next : Scan Char := of fun
  | [] => none
  | c :: cs => some (c, cs)

/-- The next character, which must be a given one. -/
def expect (c : Char) : Scan Unit := do
  if (← next) = c then return else fail

/-- Takes a given text, if it comes next. -/
def take? (text : String) : Scan Bool := of fun cs =>
  let word := text.toList
  if word.isPrefixOf cs then some (true, cs.drop word.length) else some (false, cs)

/-- The next character, if it is one of the given ones. -/
def oneOf (these : List Char) : Scan (Option Char) := of fun
  | [] => some (none, [])
  | c :: cs => if these.contains c then some (some c, cs) else some (none, c :: cs)

/-- As many characters of a class as there are. -/
def takeWhile (p : Char → Bool) : Scan (List Char) := of fun cs =>
  some (cs.takeWhile p, cs.dropWhile p)

/-- A scan that may fail, in which case it takes nothing. -/
def optional {α : Type} (p : Scan α) : Scan (Option α) := of fun cs =>
  match p cs with
  | some (a, rest) => some (some a, rest)
  | none => some (none, cs)

/-- The first of two scans that does not fail. -/
def orElse {α : Type} (p q : Scan α) : Scan α := of fun cs => (p cs).or (q cs)

/-- Whether the whole text was taken. -/
def atEnd : Scan Bool := of fun cs => some (cs.isEmpty, cs)

/-! ## Blanks and comments -/

/-- A space or a tab. -/
def isSpace (c : Char) : Bool := c == ' ' || c == '\t'

/-- A character that may stand in a comment: no control but the tab. -/
def isPlain (c : Char) : Bool := c == '\t' || (' ' ≤ c && c ≠ '\x7f')

def spaces : Scan Unit := do
  let _ ← takeWhile isSpace

/-- The end of a line: a line feed, perhaps behind a carriage return. -/
def newline : Scan Unit := of fun
  | '\n' :: cs => some ((), cs)
  | '\r' :: '\n' :: cs => some ((), cs)
  | _ => none

/-- A comment, if there is one. -/
def comment : Scan Unit := do
  if ← take? "#" then
    let _ ← takeWhile isPlain

/-- The rest of a line behind what it says. -/
def lineEnd : Scan Unit := do
  spaces
  comment
  if ← atEnd then return else newline

/-- The text behind blanks, ends of lines and comments. A comment ends with its line. -/
def behindBlanks : (inComment : Bool) → List Char → Option (List Char)
  | _, '\n' :: cs => behindBlanks false cs
  | _, '\r' :: '\n' :: cs => behindBlanks false cs
  | false, '#' :: cs => behindBlanks true cs
  | false, c :: cs => if isSpace c then behindBlanks false cs else some (c :: cs)
  | true, c :: cs => if isPlain c then behindBlanks true cs else none
  | false, [] => some []
  | true, [] => none

/-- Blanks, ends of lines and comments. -/
def blanks : Scan Unit := of fun cs => (behindBlanks false cs).map fun rest => ((), rest)

/-! ## Repetition -/

/-- Items that a separator parts, of which there is at least one. -/
def separated {α : Type} (item : Scan α) (separator : Char) : (fuel : Nat) → Scan (List α)
  | 0 => fail
  | fuel + 1 => do
    let a ← item
    if ← take? separator.toString then return a :: (← separated item separator fuel)
    else return [a]

/-- The number of characters that are left, as a bound for repetition. -/
def bound : Scan Nat := of fun cs => some (cs.length + 1, cs)

end Scan

end HeaderBridge.Toml
