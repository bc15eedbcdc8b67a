/-
  Dates and times in TOML. Only whether they are well formed matters here: every part has its
  range, and a day must exist in its month.
-/
import HeaderBridge.Decimal.Reading
import HeaderBridge.Toml.Scan

namespace HeaderBridge.Toml

/-- How many days a month has. -/
def daysIn (year month : Nat) : Nat :=
  if month = 2 then
    if year % 4 = 0 ∧ (year % 100 ≠ 0 ∨ year % 400 = 0) then 29 else 28
  else if [4, 6, 9, 11].contains month then 30
  else 31

namespace Scan

/-- A number of exactly so many digits, within a range. -/
def field (count least greatest : Nat) : Scan Nat := of fun cs =>
  let front := cs.take count
  let value := decimalValue front
  if front.length = count ∧ front.all Char.isDigit ∧ least ≤ value ∧ value ≤ greatest then
    some (value, cs.drop count)
  else none

def date : Scan Unit := do
  let year ← field 4 0 9999
  expect '-'
  let month ← field 2 1 12
  expect '-'
  let _ ← field 2 1 (daysIn year month)

/-- The digits behind the point of a second. -/
def secondFraction : Scan Unit := do
  expect '.'
  if (← takeWhile Char.isDigit).isEmpty then fail

/-- A time of day. The last minute of a day may have one more second. -/
def time : Scan Unit := do
  let _ ← field 2 0 23
  expect ':'
  let _ ← field 2 0 59
  expect ':'
  let _ ← field 2 0 60
  if (← peek) = some '.' then secondFraction

/-- How far a clock is off. -/
def offset : Scan Unit := do
  match ← oneOf ['Z', 'z', '+', '-'] with
  | none => fail
  | some c =>
    if c = '+' ∨ c = '-' then
      let _ ← field 2 0 23
      expect ':'
      let _ ← field 2 0 59

/-- A time behind a date. -/
def timeOfDate : Scan Unit := do
  if (← oneOf ['T', 't', ' ']).isNone then fail
  else
    time
    let _ ← optional offset

/-- A date, a time, or both. -/
def moment : Scan Unit :=
  orElse (do
    date
    let _ ← optional timeOfDate) time

end Scan

end HeaderBridge.Toml
