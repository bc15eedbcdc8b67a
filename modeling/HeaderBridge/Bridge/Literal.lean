/-
  The values of C literals. An integer must fit 64 bits and have only digits of its base; a
  character must be a single one, or one of the common escapes.
-/
import HeaderBridge.Decimal.Reading
import HeaderBridge.Objc.Expr
import HeaderBridge.Swift.Constant

namespace HeaderBridge

namespace Literal

/-- The text without the letters at its end that a class has. -/
def withoutSuffix (isSuffix : Char → Bool) (cs : List Char) : List Char :=
  (cs.reverse.dropWhile isSuffix).reverse

/-- The value of a digit, which may be a letter in either case. -/
def digitValue? (c : Char) : Option Nat :=
  if '0' ≤ c ∧ c ≤ '9' then some (c.toNat - '0'.toNat)
  else if 'a' ≤ c ∧ c ≤ 'z' then some (c.toNat - 'a'.toNat + 10)
  else if 'A' ≤ c ∧ c ≤ 'Z' then some (c.toNat - 'A'.toNat + 10)
  else none

/-- The value of a row of digits in a base, behind what was read of it. -/
def digitsValue? (radix : Nat) : (value : Nat) → List Char → Option Nat
  | value, [] => some value
  | value, c :: cs =>
    match digitValue? c with
    | some d => if d < radix then digitsValue? radix (radix * value + d) cs else none
    | none => none

/-- A number of 64 bits: at least one digit, and perhaps a plus sign. -/
def unsigned? (radix : Nat) (cs : List Char) : Option UInt64 :=
  let digits := if cs.head? = some '+' then cs.drop 1 else cs
  if digits.isEmpty then none
  else
    match digitsValue? radix 0 digits with
    | some value => if value < 0x10000000000000000 then some (UInt64.ofNat value) else none
    | none => none

def isIntSuffix (c : Char) : Bool := c == 'u' || c == 'U' || c == 'l' || c == 'L'

def isFloatSuffix (c : Char) : Bool :=
  c == 'f' || c == 'F' || c == 'd' || c == 'D' || c == 'l' || c == 'L'

/-- The base of an integer without suffix, with its digits. A zero in front of other digits marks
    an octal number. -/
def baseOf : List Char → Base × List Char
  | '0' :: 'x' :: digits | '0' :: 'X' :: digits => (.hexadecimal, digits)
  | '0' :: 'b' :: digits | '0' :: 'B' :: digits => (.binary, digits)
  | '0' :: d :: digits => (.octal, d :: digits)
  | digits => (.decimal, digits)

/-- The value of an integer literal, in the base that it is written in. -/
def integer? (spelling : String) : Option Constant :=
  let (base, digits) := baseOf (withoutSuffix isIntSuffix spelling.toList)
  (unsigned? base.radix digits).map (.integer base)

/-- The character that an escape stands for, without its backslash. -/
def escaped? : Char → Option Char
  | 'n' => some '\n'
  | 't' => some '\t'
  | 'r' => some '\r'
  | '0' => some '\x00'
  | '\\' => some '\\'
  | '\'' => some '\''
  | '"' => some '"'
  | _ => none

/-- The one character between the quotes of a literal. -/
def character? : List Char → Option Char
  | [c] => some c
  | ['\\', c] => escaped? c
  | _ => none

/-- The value of a literal in Swift. A character is the number of its code point. -/
def constant? : ObjcLiteral → Option Constant
  | .int spelling => integer? spelling
  | .float spelling =>
    (Binary64.read? (withoutSuffix isFloatSuffix spelling.toList)).map .float
  | .bool value => some (.boolean value)
  | .string contents => some (.string contents)
  | .char contents =>
    (character? contents.toList).map fun c => .integer .decimal (UInt64.ofNat c.toNat)
  | .nil => some .nil

end Literal

end HeaderBridge
