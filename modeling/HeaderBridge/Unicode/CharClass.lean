/-
  The character classes of the languages that this library reads and writes. A class of
  Unicode, which is version 17 throughout, is a table look-up; the classes of ASCII are stated
  directly.
-/
import HeaderBridge.Unicode.CodePointSet

namespace HeaderBridge.Unicode

/-- A letter of any script. -/
def isAlphabetic (c : Char) : Bool := alphabetic.contains c

/-- A digit or other number sign of any script. -/
def isNumeric (c : Char) : Bool := numeric.contains c

/-- A letter or a number sign of any script. -/
def isAlphanumeric (c : Char) : Bool := isAlphabetic c || isNumeric c

/-- A blank or line break of any script. -/
def isWhiteSpace (c : Char) : Bool := whiteSpace.contains c

/-- The blanks between tokens: space, tab, line feed, form feed and carriage return. The
    vertical tab is not one of them. -/
def isBlank (c : Char) : Bool :=
  c == ' ' || c == '\t' || c == '\n' || c == '\x0c' || c == '\r'

/-- The two sound marks of halfwidth katakana. They extend the character in front of them as far
    as Unicode is concerned, but are letters that take a place of their own. -/
def isHalfwidthSoundMark (c : Char) : Bool := c == '\uff9e' || c == '\uff9f'

/-- A mark that is drawn on the character in front of it. -/
def isAttached (c : Char) : Bool := graphemeExtend.contains c && !isHalfwidthSoundMark c

/-- A character that a quoted text shows as itself: printable, leaving a trace, and not a mark
    that would attach to the character in front of it. -/
def isShown (c : Char) : Bool :=
  !isAttached c && !unprintable.contains c && !defaultIgnorable.contains c

/-- A hexadecimal digit of ASCII, in either case. -/
def isHexDigit (c : Char) : Bool :=
  c.isDigit || ('a' ≤ c && c ≤ 'f') || ('A' ≤ c && c ≤ 'F')

/-! ## Trimming -/

/-- The characters of a text without the white space at its front. -/
def trimStart (cs : List Char) : List Char := cs.dropWhile isWhiteSpace

/-- The characters of a text without the white space at its end. -/
def trimEnd (cs : List Char) : List Char := (cs.reverse.dropWhile isWhiteSpace).reverse

/-- The characters of a text without the white space at both ends. -/
def trim (cs : List Char) : List Char := trimEnd (trimStart cs)

end HeaderBridge.Unicode
