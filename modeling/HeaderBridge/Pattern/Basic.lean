/-
  Patterns over expressions and what they are made of. A pattern is data: it can be looked at,
  built from others, and matched against a subject. A match writes what the pattern records into a
  map that others write into as well, and takes nothing back when it fails; where that matters, a
  pattern is given a map of its own, which is taken over if it matches and is lost if it does not.
-/
import HeaderBridge.Pattern.Captures

namespace HeaderBridge

/-- A pattern over the values of a subject. There may be any subjects; `V` has the values of
    each. -/
inductive PatternOver {ι : Type} (V : ι → Type) : ι → Type where
  /-- Matches everything. -/
  | any {s : ι} : PatternOver V s
  /-- Matches nothing. -/
  | never {s : ι} : PatternOver V s
  /-- Matches the values with a property. -/
  | test {s : ι} (p : V s → Bool) : PatternOver V s
  /-- Matches everything, and records something about it. -/
  | bind {s : ι} (name : String) (what : V s → Captured) : PatternOver V s
  /-- Matches the values whose part is there and matches. -/
  | view {s : ι} (t : ι) (part : V s → Option (V t)) (p : PatternOver V t) : PatternOver V s
  /-- Matches what matches both. Where both record a name, the second one counts. -/
  | both {s : ι} (p q : PatternOver V s) : PatternOver V s
  /-- Matches the same values, writing into a map of its own. -/
  | apart {s : ι} (p : PatternOver V s) : PatternOver V s
  /-- Matches what matches either. The second is tried only if the first fails. -/
  | either {s : ι} (p q : PatternOver V s) : PatternOver V s
  /-- Matches what does not match, and records nothing. -/
  | not {s : ι} (p : PatternOver V s) : PatternOver V s
  /-- Matches the values of which some part matches, and records what the first of these does. -/
  | first {s : ι} (t : ι) (parts : V s → List (V t)) (p : PatternOver V t) : PatternOver V s

namespace PatternOver

variable {ι : Type} {V : ι → Type}

/-- What was written into a map of its own, if the match succeeded. -/
def found? : Bool × Captures → Option Captures
  | (true, c) => some c
  | (false, _) => none

/-- Matches a subject and tells whether that succeeded. The map holds what was written into it in
    either case. -/
def run : {s : ι} → PatternOver V s → V s → Captures → Bool × Captures
  | _, .any, _, c => (true, c)
  | _, .never, _, c => (false, c)
  | _, .test p, x, c => (p x, c)
  | _, .bind name what, x, c => (true, c.insert name (what x))
  | _, .view _ part p, x, c =>
    match part x with
    | some y => run p y c
    | none => (false, c)
  | _, .both p q, x, c =>
    match run p x c with
    | (true, c) => run q x c
    | (false, c) => (false, c)
  | _, .apart p, x, c =>
    match found? (run p x .empty) with
    | some found => (true, c.merge found)
    | none => (false, c)
  | _, .either p q, x, c =>
    match found? (run p x .empty) with
    | some found => (true, c.merge found)
    | none => run q x c
  | _, .not p, x, c => (!(run p x .empty).1, c)
  | _, .first _ parts p, x, c =>
    match (parts x).findSome? fun y => found? (run p y .empty) with
    | some found => (true, c.merge found)
    | none => (false, c)

/-- What the pattern records about a subject, if it matches. -/
def captures? {s : ι} (p : PatternOver V s) (x : V s) : Option Captures := found? (p.run x .empty)

def isMatch {s : ι} (p : PatternOver V s) (x : V s) : Bool := (p.run x .empty).1

/-- Matches the values that equal `a`. -/
def equals {s : ι} [BEq (V s)] (a : V s) : PatternOver V s := .test (· == a)

/-- Matches what one of several patterns matches, the first of them counting. -/
def anyOf {s : ι} (ps : List (PatternOver V s)) : PatternOver V s := ps.foldr .either .never

/-- Matches what all of several patterns match. -/
def allOf {s : ι} (ps : List (PatternOver V s)) : PatternOver V s := ps.foldr .both .any

end PatternOver

/-! ## Patterns over expressions -/

/-- What a pattern over expressions can be about. -/
inductive Subject where
  | expr
  | link
  | chain
  | name
  | op
  | constant
  | arguments
  /-- Two operands and the operator between them. -/
  | operation
  /-- An operator and the operand behind it. -/
  | prefixed
  /-- An expression and the link behind it. -/
  | linked
  deriving DecidableEq

/-- The values that a subject stands for. -/
abbrev Subject.Value : Subject → Type
  | .expr => Expr
  | .link => Link
  | .chain => Chain
  | .name => String
  | .op => SwiftOperator
  | .constant => Constant
  | .arguments => List (Labelled Expr)
  | .operation => Expr × SwiftOperator × Expr
  | .prefixed => SwiftOperator × Expr
  | .linked => Expr × Link

abbrev Pattern : Subject → Type := PatternOver Subject.Value

end HeaderBridge
