/-
  Excerpts as they are drawn: the line of the text with the range underlined, the message to it, and
  a frame around both. A line ends behind any line break of Unicode, so there can be more of them
  than line feeds; the white space at its end is not drawn, and a tab reaches up to the next tab
  stop. Columns count characters from zero, which for ASCII text is the same as counting bytes, so
  ranges of one line of ASCII text are drawn to scale. Cutting a text into lines loses none of it
  (`flatten_cut`).
-/
import HeaderBridge.Source.Diagnostic
import HeaderBridge.Unicode.CharClass

namespace HeaderBridge

/-- A line feed, vertical tab, form feed or carriage return, or one of the three line breaks
    beyond ASCII. -/
def isLineBreak (c : Char) : Bool :=
  ('\n' ≤ c && c ≤ '\r') || c == '\x85' || c == '\u2028' || c == '\u2029'

/-- A line of a text: its number, counted from one, how many characters stand in front of it, and
    its own characters up to and with its line break. -/
structure DrawnLine where
  number : Nat
  start : Nat
  chars : List Char

namespace DrawnLine

/-! ## Cutting a text -/

/-- The text cut behind every line break. A carriage return and the line feed behind it are one
    break. -/
def cut : List Char → List (List Char)
  | [] => []
  | '\r' :: '\n' :: cs => ['\r', '\n'] :: cut cs
  | c :: cs =>
    if isLineBreak c then [c] :: cut cs
    else
      match cut cs with
      | [] => [[c]]
      | line :: rest => (c :: line) :: rest

theorem flatten_cut (cs : List Char) : (cut cs).flatten = cs := by
  fun_induction cut cs with
  | case1 => rfl
  | case2 cs ih => simp [ih]
  | case3 c cs _ _ ih => simp [ih]
  | case4 c cs _ _ h ih => rw [h] at ih; simp [← ih]
  | case5 c cs _ _ line rest h ih => rw [h] at ih; simp [← ih]

/-- The line on which an offset lies, out of lines of which the first has the given number and
    start. The end of the text belongs to the last line. -/
def find? (offset number start : Nat) : List (List Char) → Option DrawnLine
  | [] => none
  | chars :: rest =>
    let stop := start + chars.length
    if offset < stop ∨ (offset = stop ∧ rest.isEmpty) then some ⟨number, start, chars⟩
    else find? offset (number + 1) stop rest

/-- The line of a text on which an offset lies, if it lies in the text. A text of no characters
    is one empty line. -/
def at? (source : String) (offset : Nat) : Option DrawnLine :=
  match cut source.toList with
  | [] => find? offset 1 0 [[]]
  | lines => find? offset 1 0 lines

/-! ## Drawing -/

/-- Tab stops are four columns apart. -/
def tabDistance : Nat := 4

/-- How many places a character takes that stands in a given column. -/
def places (c : Char) (column : Nat) : Nat :=
  if c = '\t' then tabDistance - column % tabDistance else 1

/-- The characters that are drawn. -/
def shown (line : DrawnLine) : List Char := Unicode.trimEnd line.chars

/-- The line as it is drawn: each kind of white space by blanks. -/
def text (line : DrawnLine) : String :=
  String.ofList (line.shown.zipIdx.flatMap fun (c, column) =>
    if Unicode.isWhiteSpace c then List.replicate (places c column) ' ' else [c])

/-- How many places each of the first `count` columns takes. A column behind the characters that
    are drawn takes one. -/
def widths (line : DrawnLine) (count : Nat) : List Nat :=
  let drawn := line.shown.zipIdx.map fun (c, column) => places c column
  (drawn ++ List.replicate count 1).take count

/-- A row of marks under the first `count` columns. The mark of a column comes with the character
    that fills the other places of that column. -/
def marks (line : DrawnLine) (count : Nat) (mark : Nat → Char × Char) : String :=
  String.ofList ((line.widths count).zipIdx.flatMap fun (width, column) =>
    let (first, filler) := mark column
    first :: List.replicate (width - 1) filler)

end DrawnLine

namespace Excerpt

def repeated (n : Nat) (c : Char) : String := String.ofList (List.replicate n c)

/-- The mark of the underline in each column of a range: dashes, with the stem in their middle.
    Nothing is underlined at the end of the text: there the stem stands alone. -/
def underlineMark (start length column : Nat) : Char × Char :=
  if column = start + length / 2 then (if length = 0 then ('│', ' ') else ('┬', '─'))
  else if start ≤ column ∧ column < start + length then ('─', '─')
  else (' ', ' ')

/-- The mark of the arrow from the stem to the message. -/
def arrowMark (start length column : Nat) : Char × Char :=
  if column = start + length / 2 then ('╰', '─')
  else if start + length / 2 < column then ('─', '─')
  else (' ', ' ')

/-- The excerpt in a frame. The marks go on for two columns past the range; a range that is not in
    the text leaves the message alone. -/
def draw (e : Excerpt) (source : String) : String :=
  let title := s!"{e.heading}: {e.message}"
  let frame :=
    match DrawnLine.at? source e.start with
    | none => []
    | some line =>
      let number := toString line.number
      let gutter := repeated (number.length + 2) ' '
      let column := e.start - line.start
      let length := e.stop - e.start
      let marks := line.marks (column + length + 2)
      [s!"{gutter}╭─[ <unknown>:{number}:{column + 1} ]",
        s!"{gutter}│",
        s!" {number} │ {line.text}",
        s!"{gutter}│ {marks (underlineMark column length)}",
        s!"{gutter}│ {marks (arrowMark column length)} {e.message}",
        repeated (number.length + 2) '─' ++ "╯"]
  String.join ((title :: frame).map (· ++ "\n"))

end Excerpt

/-- The diagnostic with its line of source, in a frame. -/
def Diagnostic.excerpt (d : Diagnostic) (source : String) : String := d.excerptBy Excerpt.draw source

end HeaderBridge
