/-
  From characters to tokens. The text is a row of tokens with blanks between them, and every
  text has such a reading: what fits no class is a token of kind `invalid`. A class is given by
  how many characters it takes from the text, so a token is a front part of what is left, and
  the next token starts behind it.
-/
import HeaderBridge.Source.Span
import HeaderBridge.Token.Kind
import HeaderBridge.Unicode.CharClass

namespace HeaderBridge

/-- A token with its text and its place in the source. -/
structure Token where
  kind : TokenKind
  text : String
  span : Span
  deriving DecidableEq

/-- Whether the grammar looks through the token. -/
def Token.isTrivia (t : Token) : Bool := t.kind == .comment

namespace Lexer

open Unicode

/-- A token without its place: its kind, and how many characters it has behind its first. -/
structure Scan where
  kind : TokenKind
  further : Nat
  deriving DecidableEq

/-- How many characters at the front of a text are of a class. -/
def run (p : Char → Bool) (cs : List Char) : Nat := (cs.takeWhile p).length

/-! ## Words -/

def isWordStart (c : Char) : Bool := isAlphabetic c || c == '_' || c == '$'

def isWordPart (c : Char) : Bool := isAlphanumeric c || c == '_' || c == '$'

/-! ## Numbers -/

def isIntSuffix (c : Char) : Bool := c == 'u' || c == 'U' || c == 'l' || c == 'L'

/-- The suffix letters that turn digits into a floating number. -/
def isFloatMark (c : Char) : Bool := c == 'f' || c == 'F' || c == 'd' || c == 'D'

/-- A floating number takes at most one suffix letter. -/
def floatSuffix : List Char → Nat
  | c :: _ => if isFloatMark c || c == 'l' || c == 'L' then 1 else 0
  | [] => 0

/-- A point and the digits behind it. A point without a digit is not part of a number. -/
def fraction : List Char → Nat
  | '.' :: d :: cs => if d.isDigit then 2 + run Char.isDigit cs else 0
  | _ => 0

/-- The sign of an exponent. -/
def sign : List Char → Nat
  | c :: _ => if c == '+' || c == '-' then 1 else 0
  | [] => 0

/-- An exponent: the letter, a sign, then digits. The sign and the digits may be missing. -/
def exponent : List Char → Nat
  | c :: cs =>
    if c == 'e' || c == 'E' then
      let s := sign cs
      1 + s + run Char.isDigit (cs.drop s)
    else 0
  | [] => 0

/-- Digits of a base behind its two-character mark, then integer suffixes. -/
def basedNumber (isDigit : Char → Bool) (cs : List Char) : Scan :=
  let n := run isDigit cs
  ⟨.intLiteral, 1 + n + run isIntSuffix (cs.drop n)⟩

/-- A decimal number behind its first digit. -/
def decimalNumber (cs : List Char) : Scan :=
  let whole := run Char.isDigit cs
  let part := fraction (cs.drop whole)
  let power := exponent (cs.drop (whole + part))
  let n := whole + part + power
  let rest := cs.drop n
  if part + power != 0 || rest.head?.any isFloatMark then
    ⟨.floatLiteral, n + floatSuffix rest⟩
  else
    ⟨.intLiteral, n + run isIntSuffix rest⟩

/-- A number behind its first digit. The mark `0b` counts only with a binary digit behind it;
    the mark `0x` always counts. -/
def number (first : Char) (cs : List Char) : Scan :=
  let isBit (c : Char) : Bool := c == '0' || c == '1'
  match first, cs with
  | '0', mark :: rest =>
    if mark == 'x' || mark == 'X' then basedNumber isHexDigit rest
    else if (mark == 'b' || mark == 'B') && rest.head?.any isBit then basedNumber isBit rest
    else decimalNumber cs
  | _, _ => decimalNumber cs

/-! ## Quoted text, comments and directives -/

/-- The characters behind an opening quote, with the closing one. A backslash takes the
    character behind it along, even a line feed. Without a closing quote on its line the text is
    invalid up to the line feed. -/
def quoted (quote : Char) (kind : TokenKind) : List Char → Scan
  | [] => ⟨.invalid, 0⟩
  | c :: cs =>
    if c == '\n' then ⟨.invalid, 0⟩
    else if c == quote then ⟨kind, 1⟩
    else if c == '\\' then
      match cs with
      | [] => ⟨.invalid, 1⟩
      | _ :: cs => let rest := quoted quote kind cs; ⟨rest.kind, rest.further + 2⟩
    else let rest := quoted quote kind cs; ⟨rest.kind, rest.further + 1⟩

/-- The characters behind the opening of a block comment, with its end. -/
def blockComment : List Char → Scan
  | [] => ⟨.invalid, 0⟩
  | '*' :: '/' :: _ => ⟨.comment, 2⟩
  | _ :: cs => let rest := blockComment cs; ⟨rest.kind, rest.further + 1⟩

/-- The rest of a preprocessor line. A line feed behind a backslash does not end it. -/
def directiveLine : List Char → Nat
  | [] => 0
  | '\\' :: '\n' :: cs => directiveLine cs + 2
  | '\n' :: _ => 0
  | _ :: cs => directiveLine cs + 1

/-- What follows an at sign: a string, a word, or nothing that belongs to it. -/
def atSign : List Char → Scan
  | [] => ⟨.invalid, 0⟩
  | c :: cs =>
    if c == '"' then
      let body := quoted '"' .stringLiteral cs
      ⟨body.kind, body.further + 1⟩
    else if isWordStart c then
      let n := run isWordPart cs
      ⟨.ofAtWord (String.ofList (c :: cs.take n)), n + 1⟩
    else ⟨.invalid, 0⟩

/-! ## Operators -/

/-- The operators of two characters. -/
def operatorPair : Char → Char → Option TokenKind
  | '=', '=' => some .eqEq
  | '!', '=' => some .notEq
  | '*', '=' => some .starEq
  | '+', '=' => some .plusEq
  | '-', '=' => some .minusEq
  | '/', '=' => some .slashEq
  | '<', '=' => some .lessEq
  | '>', '=' => some .greaterEq
  | '<', '<' => some .shiftLeft
  | '>', '>' => some .shiftRight
  | '-', '>' => some .arrow
  | '&', '&' => some .ampAmp
  | '|', '|' => some .pipePipe
  | _, _ => none

/-- The operators and delimiters of one character. -/
def operatorSingle : Char → Option TokenKind
  | '(' => some .leftParen
  | ')' => some .rightParen
  | '[' => some .leftBracket
  | ']' => some .rightBracket
  | '{' => some .leftBrace
  | '}' => some .rightBrace
  | ',' => some .comma
  | ';' => some .semicolon
  | ':' => some .colon
  | '?' => some .question
  | '~' => some .tilde
  | '^' => some .caret
  | '%' => some .percent
  | '=' => some .eq
  | '!' => some .bang
  | '*' => some .star
  | '+' => some .plus
  | '&' => some .amp
  | '|' => some .pipe
  | '<' => some .less
  | '>' => some .greater
  | '-' => some .minus
  | '.' => some .dot
  | '/' => some .slash
  | _ => none

/-- An operator, of two characters if they make one. -/
def operator (c : Char) (cs : List Char) : Option Scan :=
  match cs.head?.bind (operatorPair c) with
  | some kind => some ⟨kind, 1⟩
  | none => (operatorSingle c).map fun kind => ⟨kind, 0⟩

/-! ## One token, all tokens -/

/-- The token that starts with `c` and goes on into `cs`. -/
def scan (c : Char) (cs : List Char) : Scan :=
  match c, cs with
  | '/', '/' :: _ => ⟨.comment, run (· != '\n') cs⟩
  | '/', '*' :: rest => let body := blockComment rest; ⟨body.kind, body.further + 1⟩
  | '#', _ => ⟨.directive, directiveLine cs⟩
  | '@', _ => atSign cs
  | '"', _ => quoted '"' .stringLiteral cs
  | '\'', _ => quoted '\'' .charLiteral cs
  | _, _ =>
    if c.isDigit then number c cs
    else if c == '.' && cs.head?.any Char.isDigit then
      let n := run Char.isDigit cs
      let n := n + exponent (cs.drop n)
      ⟨.floatLiteral, n + floatSuffix (cs.drop n)⟩
    else
      match operator c cs with
      | some found => found
      | none => if isWordStart c then ⟨.identifier, run isWordPart cs⟩ else ⟨.invalid, 0⟩

/-- The tokens of a text whose first character lies at `offset`. -/
def tokensFrom (offset : Nat) : List Char → List Token
  | [] => [⟨.endOfFile, "", Span.point offset⟩]
  | c :: cs =>
    if isBlank c then tokensFrom (offset + c.utf8Size) cs
    else
      let found := scan c cs
      let text := c :: cs.take found.further
      let stop := offset + byteLength text
      let token : Token := ⟨found.kind, String.ofList text, ⟨offset, stop, Nat.le_add_right ..⟩⟩
      token :: tokensFrom stop (cs.drop found.further)
termination_by cs => cs.length
decreasing_by
  all_goals simp only [List.length_cons, List.length_drop]; omega

end Lexer

/-- The tokens of a source text, with one end of file at the end. -/
def tokenize (source : String) : List Token := Lexer.tokensFrom 0 source.toList

end HeaderBridge
