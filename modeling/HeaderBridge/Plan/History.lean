/-
  What happened to a planned declaration, oldest first. Every step that makes or changes one
  leaves an entry under its own tag.
-/

namespace HeaderBridge

structure HistoryEntry where
  tag : String
  description : String
  deriving DecidableEq

def HistoryEntry.text (e : HistoryEntry) : String := "[" ++ e.tag ++ "] " ++ e.description

structure History where
  entries : List HistoryEntry := []
  deriving DecidableEq

namespace History

def empty : History := {}

def isEmpty (h : History) : Bool := h.entries.isEmpty

/-- The history with one more entry at its end. -/
def record (h : History) (tag description : String) : History :=
  ⟨h.entries ++ [⟨tag, description⟩]⟩

/-- The history with the entries of another one behind its own. -/
def append (h other : History) : History := ⟨h.entries ++ other.entries⟩

/-- One entry a line. -/
def summary (h : History) : String := "\n".intercalate (h.entries.map HistoryEntry.text)

end History

end HeaderBridge
