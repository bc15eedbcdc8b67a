/-
  Half-open byte ranges of a source text. Every position in this library is a byte offset into
  the UTF-8 form of the text; lines and columns are worked out only where they are shown.
-/
import HeaderBridge.Fault

namespace HeaderBridge

/-- The number of bytes of some characters in UTF-8. -/
def byteLength (cs : List Char) : Nat :=
  -- The sum starts from the numeral, whatever other zeros are in scope.
  @List.sum Nat _ ⟨0⟩ (cs.map Char.utf8Size)

/-- The bytes from `start` up to, and not with, `stop`. -/
structure Span where
  start : Nat
  stop : Nat
  start_le_stop : start ≤ stop := by omega
  deriving DecidableEq

namespace Span

/-- The span between two offsets, which must stand in order. -/
def between (start stop : Nat) : Except Fault Span :=
  if h : start ≤ stop then .ok ⟨start, stop, h⟩ else .error (.reversedSpan start stop)

/-- The span of no bytes at an offset. -/
def point (offset : Nat) : Span := ⟨offset, offset, Nat.le_refl offset⟩

/-- How many bytes the span has. -/
def length (s : Span) : Nat := s.stop - s.start

def isEmpty (s : Span) : Bool := s.start == s.stop

/-- The least span that holds both. -/
def cover (s t : Span) : Span where
  start := min s.start t.start
  stop := max s.stop t.stop
  start_le_stop := by have := s.start_le_stop; omega

def contains (s : Span) (offset : Nat) : Bool := s.start ≤ offset && offset < s.stop

/-- The characters in front of a byte offset and those behind it. There is no answer for an
    offset past the end or inside a character. -/
def splitAtByte : Nat → List Char → Option (List Char × List Char)
  | 0, cs => some ([], cs)
  | _ + 1, [] => none
  | n + 1, c :: cs =>
    if c.utf8Size ≤ n + 1 then
      (splitAtByte (n + 1 - c.utf8Size) cs).map fun (front, back) => (c :: front, back)
    else none

/-- The part of a text that the span covers. -/
def slice (s : Span) (source : String) : Except Fault String :=
  match splitAtByte s.start source.toList with
  | none => .error .badCut
  | some (_, back) =>
    match splitAtByte s.length back with
    | none => .error .badCut
    | some (part, _) => .ok (String.ofList part)

end Span

end HeaderBridge
