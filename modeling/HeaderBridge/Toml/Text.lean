/-
  The four kinds of strings in TOML: in double quotes with escapes or in single quotes without,
  in one line or in several.
-/
import HeaderBridge.Toml.Scan

namespace HeaderBridge.Toml

/-- The value of a hexadecimal digit. -/
def hexDigit? (c : Char) : Option Nat :=
  if c.isDigit then some (c.toNat - '0'.toNat)
  else if 'a' ≤ c ∧ c ≤ 'f' then some (c.toNat - 'a'.toNat + 10)
  else if 'A' ≤ c ∧ c ≤ 'F' then some (c.toNat - 'A'.toNat + 10)
  else none

/-- The character with a number in hexadecimal digits. There is none for a surrogate, and none
    past the last code point. -/
def hexChar? (digits : List Char) : Option Char := do
  let n ← digits.foldlM (fun n c => do return 16 * n + (← hexDigit? c)) 0
  if n.isValidChar then some (Char.ofNat n) else none

/-- The character that a letter behind a backslash stands for. -/
def simpleEscape? : Char → Option Char
  | 'b' => some '\x08'
  | 'f' => some '\x0c'
  | 'n' => some '\n'
  | 'r' => some '\r'
  | 't' => some '\t'
  | '\\' => some '\\'
  | '"' => some '"'
  | _ => none

/-- Where the reading of a string in several lines stands. -/
inductive BreakState where
  /-- In the text. -/
  | inText
  /-- Behind a backslash that is to join two lines, before the end of the line. -/
  | beforeBreak
  /-- Behind that end, before the first character that is no blank. -/
  | behindBreak

/-- The text up to the quote that ends it, in one line. -/
def basicBody : List Char → Option (List Char × List Char)
  | '"' :: cs => some ([], cs)
  | '\\' :: 'u' :: a :: b :: c :: d :: cs => do
    let x ← hexChar? [a, b, c, d]
    let (text, rest) ← basicBody cs
    return (x :: text, rest)
  | '\\' :: 'U' :: a :: b :: c :: d :: e :: f :: g :: h :: cs => do
    let x ← hexChar? [a, b, c, d, e, f, g, h]
    let (text, rest) ← basicBody cs
    return (x :: text, rest)
  | '\\' :: c :: cs => do
    let x ← simpleEscape? c
    let (text, rest) ← basicBody cs
    return (x :: text, rest)
  | c :: cs =>
    if c ≠ '\\' ∧ Scan.isPlain c then do
      let (text, rest) ← basicBody cs
      return (c :: text, rest)
    else none
  | [] => none

/-- The text up to the three quotes that end it, in several lines. One or two quotes belong to
    the text, also right before the end. A backslash at the end of a line joins it to the next
    character that is no blank. -/
def multiBasicBody : BreakState → List Char → Option (List Char × List Char)
  | .beforeBreak, '\n' :: cs => multiBasicBody .behindBreak cs
  | .beforeBreak, '\r' :: '\n' :: cs => multiBasicBody .behindBreak cs
  | .beforeBreak, c :: cs => if Scan.isSpace c then multiBasicBody .beforeBreak cs else none
  | .behindBreak, '\n' :: cs => multiBasicBody .behindBreak cs
  | .behindBreak, '\r' :: '\n' :: cs => multiBasicBody .behindBreak cs
  | .behindBreak, ' ' :: cs => multiBasicBody .behindBreak cs
  | .behindBreak, '\t' :: cs => multiBasicBody .behindBreak cs
  | _, '"' :: '"' :: '"' :: '"' :: '"' :: cs => some (['"', '"'], cs)
  | _, '"' :: '"' :: '"' :: '"' :: cs => some (['"'], cs)
  | _, '"' :: '"' :: '"' :: cs => some ([], cs)
  | _, '\\' :: 'u' :: a :: b :: c :: d :: cs => do
    let x ← hexChar? [a, b, c, d]
    let (text, rest) ← multiBasicBody .inText cs
    return (x :: text, rest)
  | _, '\\' :: 'U' :: a :: b :: c :: d :: e :: f :: g :: h :: cs => do
    let x ← hexChar? [a, b, c, d, e, f, g, h]
    let (text, rest) ← multiBasicBody .inText cs
    return (x :: text, rest)
  | _, '\\' :: '\n' :: cs => multiBasicBody .behindBreak cs
  | _, '\\' :: '\r' :: '\n' :: cs => multiBasicBody .behindBreak cs
  | _, '\\' :: c :: cs =>
    if Scan.isSpace c then multiBasicBody .beforeBreak cs
    else do
      let x ← simpleEscape? c
      let (text, rest) ← multiBasicBody .inText cs
      return (x :: text, rest)
  | _, '\r' :: '\n' :: cs => do
    let (text, rest) ← multiBasicBody .inText cs
    return ('\n' :: text, rest)
  | _, c :: cs =>
    if c ≠ '\\' ∧ (c = '\n' ∨ Scan.isPlain c) then do
      let (text, rest) ← multiBasicBody .inText cs
      return (c :: text, rest)
    else none
  | _, [] => none

/-- The text up to the quote that ends it, in one line and without escapes. -/
def literalBody : List Char → Option (List Char × List Char)
  | '\'' :: cs => some ([], cs)
  | c :: cs =>
    if Scan.isPlain c then do
      let (text, rest) ← literalBody cs
      return (c :: text, rest)
    else none
  | [] => none

/-- The text up to the three quotes that end it, in several lines and without escapes. -/
def multiLiteralBody : List Char → Option (List Char × List Char)
  | '\'' :: '\'' :: '\'' :: '\'' :: '\'' :: cs => some (['\'', '\''], cs)
  | '\'' :: '\'' :: '\'' :: '\'' :: cs => some (['\''], cs)
  | '\'' :: '\'' :: '\'' :: cs => some ([], cs)
  | '\r' :: '\n' :: cs => do
    let (text, rest) ← multiLiteralBody cs
    return ('\n' :: text, rest)
  | c :: cs =>
    if c = '\n' ∨ Scan.isPlain c then do
      let (text, rest) ← multiLiteralBody cs
      return (c :: text, rest)
    else none
  | [] => none

namespace Scan

/-- A string of one line behind its first double quote. -/
def basic : Scan String := do return String.ofList (← of basicBody)

/-- A string of one line behind its first single quote. -/
def literal : Scan String := do return String.ofList (← of literalBody)

/-- A string of any kind. The end of the line right behind three quotes is no part of it. -/
def text : Scan String := do
  if ← take? "\"\"\"" then
    let _ ← optional newline
    return String.ofList (← of (multiBasicBody .inText))
  else if ← take? "'''" then
    let _ ← optional newline
    return String.ofList (← of multiLiteralBody)
  else if ← take? "\"" then basic
  else if ← take? "'" then literal
  else fail

end Scan

end HeaderBridge.Toml
