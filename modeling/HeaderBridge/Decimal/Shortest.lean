/-
  Writing a floating number in decimal, always positionally. A whole number is written exactly,
  with one zero behind the point. Any other finite number gets the fewest digits behind the
  point that still read back as it, and of two such decimals the nearer one.
-/
import HeaderBridge.Decimal.Binary64

namespace HeaderBridge.Binary64

/-- The reals that round to `m / d` with `d` a power of two, as bounds over `4 · d`. The gap
    below is half as wide under a power of two. -/
structure RoundingInterval where
  low : Nat
  high : Nat
  /-- The bounds themselves round to an even mantissa. -/
  closed : Bool

/-- The interval of a mantissa with its exponent. -/
def roundingInterval (m : Nat) (q : Int) : RoundingInterval where
  low := if m == hiddenBit && q != -1074 then 4 * m - 1 else 4 * m - 2
  high := 4 * m + 2
  closed := m % 2 == 0

/-- Whether `c / 10 ^ places` lies in an interval over `4 · d`. -/
def RoundingInterval.holds (i : RoundingInterval) (d places c : Nat) : Bool :=
  let point := 4 * d * c
  let low := i.low * Nat.pow 10 places
  let high := i.high * Nat.pow 10 places
  if i.closed then low ≤ point && point ≤ high else low < point && point < high

/-- The decimal with `places` digits behind the point that reads back as `m / d`, if one of the
    two neighbours of `m / d` does. Of both the nearer one is taken, on a tie the upper. -/
def neighbour? (i : RoundingInterval) (m d places : Nat) : Option Nat :=
  let below := m * Nat.pow 10 places / d
  let past := m * Nat.pow 10 places % d
  match i.holds d places below, i.holds d places (below + 1) with
  | true, true => some (if 2 * past < d then below else below + 1)
  | true, false => some below
  | false, true => some (below + 1)
  | false, false => none

/-- The fewest places that suffice, from `places` on, and the decimal. With as many places as
    `d` has factors of two the number itself is a decimal, so `fuel` never runs out before. -/
def fewestPlaces (i : RoundingInterval) (m d : Nat) : (fuel places : Nat) → Nat × Nat
  | 0, places => (places, m * Nat.pow 10 places / d)
  | fuel + 1, places =>
    match neighbour? i m d places with
    | some c => (places, c)
    | none => fewestPlaces i m d fuel (places + 1)

/-- A decimal with a point in front of its last `places` digits. -/
def withPoint (c places : Nat) : String :=
  let digits := Nat.toDigits 10 c
  let padded := List.replicate (places + 1 - digits.length) '0' ++ digits
  let whole := padded.take (padded.length - places)
  let fraction := padded.drop (padded.length - places)
  String.ofList (whole ++ '.' :: fraction)

/-- The absolute value of a finite number in decimal. -/
def finiteText (x : Binary64) : String :=
  let (m, q) := x.unpack
  if 0 ≤ q then withPoint ((m <<< q.toNat) * 10) 1
  else
    let d := 1 <<< (-q).toNat
    if m % d = 0 then withPoint (m / d * 10) 1
    else
      let (places, c) := fewestPlaces (roundingInterval m q) m d (-q).toNat 1
      withPoint c places

/-- The number in decimal. A NaN has no sign. -/
def text (x : Binary64) : String :=
  if x.isNaN then "NaN"
  else
    let body := if x.isFinite then x.finiteText else "inf"
    if x.isNegative then "-" ++ body else body

end HeaderBridge.Binary64
