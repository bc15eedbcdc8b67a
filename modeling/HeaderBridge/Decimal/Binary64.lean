/-
  Floating numbers of 64 bits, kept as their bits so that nothing about them is hidden. A finite
  number is `m · 2 ^ q` for a mantissa below `2 ^ 53` and an exponent of at least -1074, and a
  ratio of two natural numbers is rounded to the nearest such number, a tie to the even
  mantissa. Beyond the largest one lies infinity.
-/

namespace HeaderBridge

/-- A floating number of 64 bits: sign, exponent of 11 bits, fraction of 52 bits. -/
structure Binary64 where
  bits : UInt64
  deriving DecidableEq

namespace Binary64

/-- The bits of positive infinity. -/
def infinityBits : Nat := 0x7ff0000000000000

/-- What the sign adds to the bits of a negative number. -/
def signBit : Nat := 0x8000000000000000

/-- The highest bit of a mantissa, which is not stored unless the number is too small for it. -/
def hiddenBit : Nat := 0x10000000000000

/-- The number with a sign and the other 63 bits. -/
def ofMagnitude (negative : Bool) (magnitude : Nat) : Binary64 :=
  ⟨UInt64.ofNat (if negative then signBit + magnitude else magnitude)⟩

def infinity (negative : Bool) : Binary64 := ofMagnitude negative infinityBits

/-- The quiet number that stands for no number. -/
def nan (negative : Bool) : Binary64 := ofMagnitude negative 0x7ff8000000000000

def isNegative (x : Binary64) : Bool := signBit ≤ x.bits.toNat

/-- The bits without the sign. They grow with the absolute value. -/
def magnitude (x : Binary64) : Nat := x.bits.toNat % signBit

def isFinite (x : Binary64) : Bool := x.magnitude < infinityBits

def isNaN (x : Binary64) : Bool := infinityBits < x.magnitude

/-- The mantissa and exponent of the absolute value of a finite number. -/
def unpack (x : Binary64) : Nat × Int :=
  let exponent : Nat := x.magnitude / hiddenBit
  let fraction : Nat := x.magnitude % hiddenBit
  if exponent = 0 then (fraction, -1074) else (hiddenBit + fraction, (exponent : Int) - 1075)

/-- Numeric equality: nothing equals a NaN, and the two zeros are equal. -/
def equal (x y : Binary64) : Bool :=
  !x.isNaN && !y.isNaN && (x.bits == y.bits || (x.magnitude == 0 && y.magnitude == 0))

/-! ## Rounding a ratio -/

/-- The natural number nearest to `num / den`, the even one of two. -/
def divNearest (num den : Nat) : Nat :=
  let quotient := num / den
  let twice := 2 * (num % den)
  if den < twice || (twice == den && quotient % 2 == 1) then quotient + 1 else quotient

/-- The exponent `e` with `2 ^ e ≤ num / den < 2 ^ (e + 1)`. -/
def binaryExponent (num den : Nat) : Int :=
  let e : Int := (num.log2 : Int) - den.log2
  let reached := if 0 ≤ e then den <<< e.toNat ≤ num else den ≤ num <<< (-e).toNat
  if reached then e else e - 1

/-- The magnitude of the number nearest to `num / den`, for a positive ratio. A mantissa that
    rounds up to `2 ^ 53` carries into the exponent by itself. -/
def roundRatio (num den : Nat) : Nat :=
  let q : Int := max (binaryExponent num den - 52) (-1074)
  let m :=
    if 0 ≤ q then divNearest num (den <<< q.toNat) else divNearest (num <<< (-q).toNat) den
  min ((q + 1074).toNat * hiddenBit + m) infinityBits

/-- How many decimal digits a number has. -/
def decimalLength (n : Nat) : Nat := (Nat.toDigits 10 n).length

/-- The number nearest to `digits · 10 ^ power`. An exponent that is out of all reach is settled
    without working the power out. -/
def ofDecimal (negative : Bool) (digits : Nat) (power : Int) : Binary64 :=
  if digits = 0 then ofMagnitude negative 0
  else
    let scale := (decimalLength digits : Int) + power
    if 400 < scale then infinity negative
    else if scale < -400 then ofMagnitude negative 0
    else if 0 ≤ power then ofMagnitude negative (roundRatio (digits * Nat.pow 10 power.toNat) 1)
    else ofMagnitude negative (roundRatio digits (Nat.pow 10 (-power).toNat))

end Binary64

end HeaderBridge
