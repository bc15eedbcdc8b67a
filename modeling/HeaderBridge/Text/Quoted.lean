/-
  Text in double quotes. Everything that a reader could not see or would misread is written by
  an escape: the quote, the backslash, the common controls by a letter, and every other
  character that does not show by its number in braces.
-/
import HeaderBridge.Unicode.CharClass

namespace HeaderBridge.Quoted

/-- How one character stands between the quotes. -/
def escape (c : Char) : List Char :=
  if c == '\x00' then ['\\', '0']
  else if c == '\t' then ['\\', 't']
  else if c == '\r' then ['\\', 'r']
  else if c == '\n' then ['\\', 'n']
  else if c == '\\' then ['\\', '\\']
  else if c == '"' then ['\\', '"']
  else if Unicode.isShown c then [c]
  else ['\\', 'u', '{'] ++ Nat.toDigits 16 c.toNat ++ ['}']

/-- The text between the quotes. -/
def body (cs : List Char) : List Char := cs.flatMap escape

/-- The text with its quotes. -/
def write (s : String) : String := String.ofList ('"' :: body s.toList ++ ['"'])

end HeaderBridge.Quoted
