/-
  Lines and columns of byte offsets. The index holds the offset at which each line starts; both
  numbers count from one, and a column counts bytes. Both have 32 bits, as offsets have, so the
  largest offset of all has a column only behind a line feed, and a line only behind another
  character.
-/
import HeaderBridge.Source.Span

namespace HeaderBridge

/-- The offsets at which the lines of a text start. The first line starts at zero. -/
structure LineIndex where
  later : List Nat

namespace LineIndex

/-- The offsets just behind the line feeds of a text that starts at `offset`. -/
def lineStartsAfter (offset : Nat) : List Char → List Nat
  | [] => []
  | c :: cs =>
    let next := offset + c.utf8Size
    if c == '\n' then next :: lineStartsAfter next cs else lineStartsAfter next cs

def ofSource (source : String) : LineIndex := ⟨lineStartsAfter 0 source.toList⟩

/-- Every line start, in increasing order. -/
def starts (index : LineIndex) : List Nat := 0 :: index.later

def lineCount (index : LineIndex) : Nat := index.starts.length

/-- The line and column of an offset: the last line that starts at or before it, and how far it
    lies behind that start. A line feed belongs to the line that it ends. -/
def position (index : LineIndex) (offset : Nat) : Nat × Nat :=
  let passed := index.later.takeWhile (· ≤ offset)
  (passed.length + 1, offset - passed.getLastD 0 + 1)

/-- The largest number that a line or a column can have. -/
def maxNumber : Nat := 0xffffffff

/-- The line and column of an offset that may lie anywhere. Both count from one, so the number of a
    line behind very many lines, or of a column far behind the last line start, can be too large. -/
def locate (index : LineIndex) (offset : Nat) : Except Fault (Nat × Nat) :=
  let place := index.position offset
  if place.1 ≤ maxNumber ∧ place.2 ≤ maxNumber then .ok place else .error .widePlace

theorem locate_eq_ok_iff {index : LineIndex} {offset : Nat} {place : Nat × Nat} :
    index.locate offset = .ok place ↔
      index.position offset = place ∧ place.1 ≤ maxNumber ∧ place.2 ≤ maxNumber := by
  unfold locate
  grind

end LineIndex

end HeaderBridge
