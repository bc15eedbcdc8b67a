/-
  Numbers in TOML. An underscore may stand between two digits. Integers have 64 bits with sign; a
  floating number must not be too large for 64 bits.
-/
import HeaderBridge.Decimal.Reading
import HeaderBridge.Toml.Scan
import HeaderBridge.Toml.Text

namespace HeaderBridge.Toml

/-- A row of digits with single underscores between them, without the underscores. -/
def digitRow (isDigit : Char → Bool) : List Char → List Char × List Char
  | '_' :: c :: cs =>
    if isDigit c then
      let (digits, rest) := digitRow isDigit cs
      (c :: digits, rest)
    else ([], '_' :: c :: cs)
  | c :: cs =>
    if isDigit c then
      let (digits, rest) := digitRow isDigit cs
      (c :: digits, rest)
    else ([], c :: cs)
  | [] => ([], [])

namespace Scan

/-- A row of digits that starts with a digit. -/
def digits (isDigit : Char → Bool) : Scan (List Char) := do
  if (← peek).any isDigit then of fun cs => some (digitRow isDigit cs) else fail

/-- A sign, if there is one: whether it is a minus. -/
def sign : Scan Bool := do
  return (← oneOf ['+', '-']) == some '-'

/-- The digits of a decimal integer: a single zero, or a row that starts with none. -/
def decimalDigits : Scan (List Char) := do
  if ← take? "0" then return ['0'] else digits Char.isDigit

/-- An integer, if it has 64 bits. -/
def inRange (value : Int) : Scan Int :=
  if -0x8000000000000000 ≤ value ∧ value < 0x8000000000000000 then return value else fail

/-- The digits of an integer in another base, behind its mark. -/
def based (radix : Nat) : Scan Int := do
  let row ← digits fun c => (hexDigit? c).any (· < radix)
  inRange (row.foldl (fun value c => radix * value + (hexDigit? c).getD 0) 0 : Nat)

/-- An integer in any base. -/
def integer : Scan Int := do
  if ← take? "0x" then based 16
  else if ← take? "0o" then based 8
  else if ← take? "0b" then based 2
  else
    let negative ← sign
    let value := decimalValue (← decimalDigits)
    inRange (if negative then -value else value)

/-- The power of ten of a floating number: its sign and digits, with the letter in front. -/
def exponent : Scan (List Char) := do
  if (← oneOf ['e', 'E']).isNone then fail
  else
    let negative ← sign
    return (if negative then ['e', '-'] else ['e']) ++ (← digits Char.isDigit)

/-- The digits behind the point of a floating number, with the point. -/
def fraction : Scan (List Char) := do
  expect '.'
  return '.' :: (← digits Char.isDigit)

/-- A floating number. One of infinite value must be written as such, or be negative. -/
def float : Scan Binary64 := do
  let negative ← sign
  if ← take? "inf" then return .infinity negative
  else if ← take? "nan" then return .nan negative
  else
    let whole ← decimalDigits
    let part ← optional fraction
    let power ← optional exponent
    if part.isNone && power.isNone then fail
    else
      match Binary64.unsigned? negative (whole ++ part.getD [] ++ power.getD []) with
      | some x => if x = .infinity false then fail else return x
      | none => fail

end Scan

end HeaderBridge.Toml
