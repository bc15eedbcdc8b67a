/-
  The histories of a plan as one text: for each file its own, then those of its types with their
  properties and methods, then those of its global values. Two blanks more stand in front of each
  level. A line ends at a line feed, together with a carriage return in front of it; a line feed at
  the very end starts no further line.
-/
import HeaderBridge.Plan.Plan

namespace HeaderBridge

/-- A line without the carriage return at its end. -/
def withoutReturn (reversed : List Char) : List Char :=
  match reversed with
  | '\r' :: cs => cs.reverse
  | cs => cs.reverse

/-- The lines of a text behind the characters of the present line, which stand last first. -/
def linesFrom (reversed : List Char) : List Char → List (List Char)
  | [] => if reversed.isEmpty then [] else [reversed.reverse]
  | c :: cs => if c = '\n' then withoutReturn reversed :: linesFrom [] cs else linesFrom (c :: reversed) cs

/-- The lines of a text, without their ends. -/
def lines (text : String) : List String := (linesFrom [] text.toList).map String.ofList

/-- A line at a level. -/
def levelled (level : Nat) (line : String) : String :=
  String.ofList (List.replicate (2 * level) ' ') ++ line ++ "\n"

namespace History

/-- Every line of the history, at a level. -/
def report (level : Nat) (h : History) : String :=
  String.join ((lines h.summary).map (levelled level))

end History

def TypePlan.report (t : TypePlan) : String :=
  levelled 1 (t.name ++ ":") ++ t.history.report 2
    ++ String.join (t.properties.map (·.history.report 2))
    ++ String.join (t.methods.map (·.history.report 2))

def FilePlan.report (f : FilePlan) : String :=
  levelled 0 (f.targetPath ++ ":") ++ f.history.report 1
    ++ String.join (f.types.map TypePlan.report)
    ++ String.join (f.values.map (·.history.report 1))

def Plan.report (p : Plan) : String := String.join (p.files.map FilePlan.report)

end HeaderBridge
