/-
  What a pattern records about its subject, under names that the pattern chose. A name stands for
  one value, the one recorded last.
-/
import HeaderBridge.Swift.Chain

namespace HeaderBridge

/-- A recorded value. -/
inductive Captured where
  | expr (e : Expr)
  | link (l : Link)
  | string (s : String)
  | type (t : SwiftType)
  | op (op : SwiftOperator)

/-- Named values, each name once, in the order in which the names first came up. -/
structure Captures where
  entries : List (String × Captured) := []

namespace Captures

def empty : Captures := {}

/-- The entries with `value` under `name`. -/
def put (name : String) (value : Captured) : List (String × Captured) → List (String × Captured)
  | [] => [(name, value)]
  | (other, old) :: rest =>
    if other = name then (name, value) :: rest else (other, old) :: put name value rest

/-- Records a value, in place of an earlier one of the name. -/
def insert (c : Captures) (name : String) (value : Captured) : Captures :=
  ⟨put name value c.entries⟩

/-- Records everything that `later` holds. -/
def merge (c later : Captures) : Captures :=
  later.entries.foldl (fun c (name, value) => c.insert name value) c

def get? (c : Captures) (name : String) : Option Captured :=
  (c.entries.find? (·.1 == name)).map (·.2)

/-- The expression under a name, if an expression was recorded there. -/
def expr? (c : Captures) (name : String) : Option Expr :=
  match c.get? name with
  | some (.expr e) => some e
  | _ => none

/-- The text under a name, if a text was recorded there. -/
def string? (c : Captures) (name : String) : Option String :=
  match c.get? name with
  | some (.string s) => some s
  | _ => none

def size (c : Captures) : Nat := c.entries.length

def isEmpty (c : Captures) : Bool := c.entries.isEmpty

end Captures

end HeaderBridge
