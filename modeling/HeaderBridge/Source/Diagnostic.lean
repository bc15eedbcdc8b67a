/-
  Messages about a source text, and the log that collects them. Records are kept in the order in
  which they were written; each may name the file (or other origin) that it is about. A message is
  drawn at its place in the text by whatever draws excerpts, which is a parameter here: it is given
  a range inside the text, so the span is first cut to the text, and an empty one takes in the next
  byte where there is one.
-/
import HeaderBridge.Source.Span

namespace HeaderBridge

inductive Severity where
  | error
  | warning
  | note
  deriving DecidableEq

def Severity.word : Severity → String
  | .error => "error"
  | .warning => "warning"
  | .note => "note"

/-- A message about a place in a text. -/
structure Diagnostic where
  severity : Severity
  message : String
  span : Span
  origin : Option String
  deriving DecidableEq

/-- One line that shows the whole record. -/
def Diagnostic.text (d : Diagnostic) : String :=
  let place := s!"{d.severity.word}: {d.message} at {d.span.start}..{d.span.stop}"
  match d.origin with
  | some origin => s!"{origin}: {place}"
  | none => place

/-! ## What is drawn -/

/-- What is drawn of a text: a range of its bytes is underlined, with a message to it. -/
structure Excerpt where
  heading : String
  message : String
  start : Nat
  stop : Nat
  deriving DecidableEq

namespace Excerpt

/-- The part of a text of `size` bytes that is underlined for a span. -/
def shownRange (s : Span) (size : Nat) : Nat × Nat :=
  let start := min s.start size
  let stop := max (min s.stop size) start
  if start = stop then (start, min (stop + 1) size) else (start, stop)

def headingOf : Severity → String
  | .error => "Error"
  | .warning => "Warning"
  | .note => "Advice"

end Excerpt

/-- What is drawn for a diagnostic of a text of `size` bytes. -/
def Diagnostic.drawn (d : Diagnostic) (size : Nat) : Excerpt :=
  let (start, stop) := Excerpt.shownRange d.span size
  ⟨Excerpt.headingOf d.severity, d.message, start, stop⟩

/-- The diagnostic as `draw` shows an excerpt of its text. -/
def Diagnostic.excerptBy (draw : Excerpt → String → String) (d : Diagnostic) (source : String) :
    String :=
  draw (d.drawn source.utf8ByteSize) source

/-! ## The log -/

/-- All records so far, oldest first. -/
structure DiagnosticLog where
  records : Array Diagnostic := #[]

namespace DiagnosticLog

def empty : DiagnosticLog := {}

/-- The log with one more record at its end. -/
def add (log : DiagnosticLog) (d : Diagnostic) : DiagnosticLog := ⟨log.records.push d⟩

def size (log : DiagnosticLog) : Nat := log.records.size

def isEmpty (log : DiagnosticLog) : Bool := log.records.isEmpty

/-- The records about one origin, in order. -/
def forOrigin (log : DiagnosticLog) (origin : String) : List Diagnostic :=
  log.records.toList.filter (·.origin == some origin)

/-- How many records are errors. -/
def errorCount (log : DiagnosticLog) : Nat :=
  log.records.toList.countP (·.severity == .error)

end DiagnosticLog

end HeaderBridge
