/-
  How a program is bridged: how many workers there are, which steps are taken, and whether the
  histories are reported. Settings may stand in a file, and what finds them in its text is a
  parameter here: whatever it finds, there is at least one worker (`readBy_eq_ok_iff`).
-/

namespace HeaderBridge

structure Settings where
  /-- How many workers may look for types at a time. It has no bearing on what they find. -/
  workers : Nat := 4
  reportHistory : Bool := false
  /-- Drop the methods that only read or write a property. -/
  mergeAccessors : Bool := true
  /-- Drop the extensions that add nothing. -/
  dropEmptyExtensions : Bool := true
  deriving DecidableEq

namespace Settings

/-- Why settings could not be read. -/
inductive Problem where
  /-- There is no file at the path. -/
  | noFile (path : String)
  /-- The text is no TOML, or a setting has a value of another type. -/
  | malformed
  | noWorkers
  deriving DecidableEq

def Problem.message : Problem → String
  | .noFile path => "Failed to read " ++ path ++ ": No such file or directory (os error 2)"
  | .malformed => "Failed to parse config"
  | .noWorkers => "Failed to parse config: num_threads must be at least 1"

/-- Reads settings by what is found in a text. At least one worker must come of it. -/
def readBy (find? : String → Option Settings) (text : String) : Except Problem Settings :=
  match find? text with
  | none => .error .malformed
  | some s => if s.workers = 0 then .error .noWorkers else .ok s

variable {find? : String → Option Settings} {text : String}

theorem readBy_eq_ok_iff {s : Settings} :
    readBy find? text = .ok s ↔ find? text = some s ∧ 0 < s.workers := by
  unfold readBy
  cases find? text with
  | none => simp
  | some found =>
    simp only [Option.some.injEq]
    by_cases hnone : found.workers = 0
    · rw [if_pos hnone]
      refine ⟨nofun, ?_⟩
      rintro ⟨rfl, hpos⟩
      omega
    · rw [if_neg hnone, Except.ok.injEq]
      refine ⟨?_, And.left⟩
      rintro rfl
      exact ⟨rfl, Nat.pos_of_ne_zero hnone⟩

/-- The defaults are settings that can be read. -/
theorem readBy_default (h : find? text = some {}) : readBy find? text = .ok {} :=
  readBy_eq_ok_iff.mpr ⟨h, by decide⟩

end Settings

end HeaderBridge
