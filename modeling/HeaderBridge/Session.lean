/-
  Bridging a whole program: headers are added one by one, and a run then applies the steps that the
  settings name, makes constants of the macros that were met, and works out the types of all
  global values.
-/
import HeaderBridge.Bridge.MacroConstant
import HeaderBridge.Plan.Accessors
import HeaderBridge.Plan.EmptyExtensions
import HeaderBridge.Plan.HistoryReport
import HeaderBridge.Plan.OfHeader
import HeaderBridge.Plan.ValueTypes
import HeaderBridge.Settings
import HeaderBridge.Typing.Foundation

namespace HeaderBridge

/-- A directive that was met in a header and not yet dealt with. -/
structure PendingDirective where
  path : String
  text : String
  /-- The line of the header on which it starts. -/
  line : Nat
  deriving DecidableEq

structure Session where
  settings : Settings
  surroundings : Surroundings
  plan : Plan := .empty
  log : DiagnosticLog := .empty
  pending : List PendingDirective := []

/-- What a run did. -/
structure Summary where
  files : Nat
  merged : Nat
  removed : Nat
  converted : Nat
  typed : Nat
  history : Option String
  deriving DecidableEq

def Summary.text (s : Summary) : String :=
  s!"{s.files} file(s): {s.merged} accessor(s) merged, {s.removed} empty extension(s) removed, "
    ++ s!"{s.converted} directive(s) converted, {s.typed} initializer(s) typed"
    ++ ((s.history.map ("\n" ++ ·)).getD "")

namespace Session

/-- A session without headers. -/
def begin (settings : Settings) (globals : List Definition := []) : Session where
  settings
  surroundings := { builtIns := Foundation.registry, globals }

/-- The directives of a header, each with its line. -/
def directives (path source : String) (h : Header) : List PendingDirective :=
  let lines := LineIndex.ofSource source
  h.directives.map fun d => ⟨path, d.text, (lines.position d.span.start).1⟩

/-- Adds a header, and says whether it has no errors. -/
def addHeader (s : Session) (path source : String) : Except Fault (Session × Bool) := do
  let h ← Header.read source s.log (some path)
  let next : Session := { s with
    plan := s.plan.addFile (FilePlan.ofHeader path source h.root)
    log := h.log
    pending := s.pending ++ directives path source h }
  return (next, h.ok)

/-! ## Macros -/

/-- The tag of what was made from a directive. -/
def directiveTag : String := "PreprocessorDirectiveConverter"

/-- The global constant for a macro. -/
def constantPlan (d : PendingDirective) (c : MacroConstant) : ValuePlan where
  name := c.name
  storage := .const c.type
  value := some c.value
  history := History.empty.record directiveTag
    ("Converted from directive `" ++ String.ofList (Unicode.trim d.text.toList)
      ++ s!"` at {d.path} line {d.line}")

/-- Adds the constant for a directive to its file, if it is one. What comes later sees it. -/
def convert (s : Session) (d : PendingDirective) : Session × Bool :=
  let found := (s.plan.file? d.path).bind fun f =>
    MacroConstant.ofDirective? s.surroundings s.plan f d.text
  match found with
  | some c =>
    let plan := s.plan.updateFile d.path (·.addValue (constantPlan d c))
    ({ s with plan, surroundings := s.surroundings.refresh plan }, true)
  | none => (s, false)

/-- Deals with some directives in order, and counts the constants that come of them. -/
def convertAll (s : Session) : List PendingDirective → Session × Nat
  | [] => (s, 0)
  | d :: ds =>
    let (s, made) := s.convert d
    let (s, count) := s.convertAll ds
    (s, count + if made then 1 else 0)

/-! ## The run -/

/-- The session with the index of globals made anew. -/
def refresh (s : Session) : Session :=
  { s with surroundings := s.surroundings.refresh s.plan }

/-- The steps on types that the settings name, with what they count. -/
def simplify (settings : Settings) (p : Plan) : Plan × Nat × Nat :=
  let merged := if settings.mergeAccessors then p.accessorCount else 0
  let p := if settings.mergeAccessors then p.mergeAccessors else p
  let removed := if settings.dropEmptyExtensions then p.emptyExtensionCount else 0
  let p := if settings.dropEmptyExtensions then p.dropEmptyExtensions else p
  (p, merged, removed)

/-- Bridges all headers that were added. -/
def run (s : Session) : Session × Summary :=
  let (plan, merged, removed) := simplify s.settings s.plan
  let ready := { s with plan, pending := [] }.refresh
  let (folded, converted) := ready.convertAll s.pending
  let folded := folded.refresh
  let (plan, typed) := folded.surroundings.typeAll folded.plan
  let summary : Summary := {
    files := s.plan.files.length
    merged, removed, converted, typed
    history := if s.settings.reportHistory then some plan.report else none }
  ({ folded with plan }, summary)

end Session

end HeaderBridge
