/-
  Reading a floating number from decimal text: digits with an optional point and an optional
  power of ten, or one of the words for infinity and for no number. At least one digit must
  stand beside the point.
-/
import HeaderBridge.Decimal.Binary64

namespace HeaderBridge

/-- The value of a row of decimal digits. -/
def decimalValue (cs : List Char) : Nat :=
  cs.foldl (fun value c => 10 * value + (c.toNat - '0'.toNat)) 0

namespace Binary64

/-- A sign at the front of a text: whether it is a minus, and the rest. -/
def splitSign : List Char → Bool × List Char
  | '-' :: cs => (true, cs)
  | '+' :: cs => (false, cs)
  | cs => (false, cs)

/-- The power of ten behind the digits: nothing, or a letter and a signed row of digits. -/
def exponentPart? : List Char → Option Int
  | [] => some 0
  | e :: cs =>
    if e == 'e' || e == 'E' then
      let (negative, digits) := splitSign cs
      if digits.isEmpty || !digits.all Char.isDigit then none
      else if negative then some (-(decimalValue digits : Int))
      else some (decimalValue digits)
    else none

/-- A number without its sign. -/
def unsigned? (negative : Bool) (cs : List Char) : Option Binary64 :=
  let whole := cs.takeWhile Char.isDigit
  let rest := cs.dropWhile Char.isDigit
  let (fraction, rest) :=
    match rest with
    | '.' :: cs => (cs.takeWhile Char.isDigit, cs.dropWhile Char.isDigit)
    | _ => ([], rest)
  if whole.isEmpty && fraction.isEmpty then none
  else
    (exponentPart? rest).map fun power =>
      ofDecimal negative (decimalValue (whole ++ fraction)) (power - fraction.length)

/-- The number that a text denotes. The words count in any case. -/
def read? (text : List Char) : Option Binary64 :=
  let (negative, cs) := splitSign text
  let word := String.ofList (cs.map Char.toLower)
  if word == "inf" || word == "infinity" then some (infinity negative)
  else if word == "nan" then some (nan negative)
  else unsigned? negative cs

end Binary64

end HeaderBridge
