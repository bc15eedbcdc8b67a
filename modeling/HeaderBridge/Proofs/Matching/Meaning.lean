/-
  What a pattern means, told from its parts alone: whether it holds of a value, and what it binds
  there (`holds`, `bindings`). A match finds just that (`captures?_eq`), although it writes into a
  map that others write into as well and takes nothing back when it fails. One equation carries
  this through every kind of pattern (`found?_run`): a match that succeeds has recorded the
  bindings of the pattern behind what the map held, and one that fails has the map thrown away by
  whoever made it. Nothing is assumed of the subjects.
-/
import HeaderBridge.Pattern.Expr
import HeaderBridge.Proofs.Matching.Recording

namespace HeaderBridge

namespace PatternOver

variable {ι : Type} {V : ι → Type} {s : ι}

/-! ## The meaning of a pattern -/

/-- Whether a pattern holds of a value. -/
def holds : {s : ι} → PatternOver V s → V s → Bool
  | _, .any, _ => true
  | _, .never, _ => false
  | _, .test p, x => p x
  | _, .bind _ _, _ => true
  | _, .view _ part p, x => (part x).any (holds p)
  | _, .both p q, x => holds p x && holds q x
  | _, .apart p, x => holds p x
  | _, .either p q, x => holds p x || holds q x
  | _, .not p, x => !holds p x
  | _, .first _ parts p, x => (parts x).any (holds p)

/-- What a pattern that holds of a value binds there, in order: of two alternatives only the first
    that holds binds anything, of many parts only the first of which the pattern holds, and what is
    denied binds nothing. -/
def bindings : {s : ι} → PatternOver V s → V s → List (String × Captured)
  | _, .any, _ => []
  | _, .never, _ => []
  | _, .test _, _ => []
  | _, .bind name what, x => [(name, what x)]
  | _, .view _ part p, x => (part x).elim [] (bindings p)
  | _, .both p q, x => bindings p x ++ bindings q x
  | _, .apart p, x => bindings p x
  | _, .either p q, x => if p.holds x then bindings p x else bindings q x
  | _, .not _, _ => []
  | _, .first _ parts p, x => ((parts x).find? p.holds).elim [] (bindings p)

/-! ### Many alternatives, many rules, many parts -/

theorem holds_anyOf (ps : List (PatternOver V s)) (x : V s) :
    (anyOf ps).holds x = ps.any (·.holds x) := by
  induction ps with
  | nil => rfl
  | cons p ps ih => exact congrArg (p.holds x || ·) ih

/-- Of many alternatives the first that holds binds what it binds. -/
theorem bindings_anyOf (ps : List (PatternOver V s)) (x : V s) :
    (anyOf ps).bindings x = (ps.find? (·.holds x)).elim [] (·.bindings x) := by
  induction ps with
  | nil => rfl
  | cons p ps ih =>
    change (if p.holds x then p.bindings x else (anyOf ps).bindings x) = _
    rw [List.find?_cons]
    cases p.holds x with
    | true => rfl
    | false => exact ih

theorem holds_allOf (ps : List (PatternOver V s)) (x : V s) :
    (allOf ps).holds x = ps.all (·.holds x) := by
  induction ps with
  | nil => rfl
  | cons p ps ih => exact congrArg (p.holds x && ·) ih

/-- Many rules bind one after the other. -/
theorem bindings_allOf (ps : List (PatternOver V s)) (x : V s) :
    (allOf ps).bindings x = ps.flatMap (·.bindings x) := by
  induction ps with
  | nil => rfl
  | cons p ps ih => exact congrArg (p.bindings x ++ ·) ih

/-! ## The run of a pattern -/

theorem found?_eq_some_iff {r : Bool × Captures} {c : Captures} :
    found? r = some c ↔ r = (true, c) := by
  obtain ⟨_ | _, _⟩ := r
  · simp [found?]
  · simp [found?]

theorem found?_eq_none_iff {r : Bool × Captures} : found? r = none ↔ ∃ c, r = (false, c) := by
  obtain ⟨_ | _, _⟩ := r
  · simp [found?]
  · simp [found?]

theorem isSome_found? (r : Bool × Captures) : (found? r).isSome = r.1 := by
  obtain ⟨_ | _, _⟩ := r
  · rfl
  · rfl

/-- Of the first part with a property something is found, and nothing if no part has it. -/
theorem findSome?_ite {α β : Type} (test : α → Bool) (f : α → β) (as : List α) :
    (as.findSome? fun a => if test a then some (f a) else none) = (as.find? test).map f := by
  induction as with
  | nil => rfl
  | cons a as ih =>
    rw [List.findSome?_cons, List.find?_cons]
    cases test a with
    | true => rfl
    | false => exact ih

/-- A match succeeds just if the pattern holds, and has then recorded what it binds behind what the
    map held. -/
theorem found?_run (p : PatternOver V s) (x : V s) (c : Captures) :
    found? (p.run x c) = if p.holds x then some (c.recordAll (p.bindings x)) else none := by
  -- A map of its own starts empty, so the induction is over any map to begin with.
  induction p generalizing c with
  | any => rfl
  | never => rfl
  | test p =>
    unfold run holds bindings
    cases p x with
    | true => rfl
    | false => rfl
  | bind name what => rfl
  | view t part p ih =>
    unfold run holds bindings
    cases part x with
    | none => rfl
    | some y => exact ih y c
  | both p q ihp ihq =>
    have hp := ihp x c
    unfold run holds bindings
    cases hholds : p.holds x with
    | true =>
      rw [hholds, if_pos rfl, found?_eq_some_iff] at hp
      rw [hp, Captures.recordAll_append]
      exact ihq x _
    | false =>
      rw [hholds, if_neg Bool.false_ne_true, found?_eq_none_iff] at hp
      obtain ⟨written, hp⟩ := hp
      rw [hp]
      rfl
  | apart p ih =>
    unfold run holds bindings
    rw [ih x .empty]
    cases p.holds x with
    | true => exact congrArg some (Captures.merge_ofBindings c (p.bindings x))
    | false => rfl
  | either p q ihp ihq =>
    unfold run holds bindings
    rw [ihp x .empty]
    cases p.holds x with
    | true => exact congrArg some (Captures.merge_ofBindings c (p.bindings x))
    | false => exact ihq x c
  | not p ih =>
    unfold run holds bindings
    rw [← isSome_found?, ih x .empty]
    cases p.holds x with
    | true => rfl
    | false => rfl
  | first t parts p ih =>
    have hfound : ((parts x).findSome? fun y => found? (p.run y .empty)) =
        ((parts x).find? p.holds).map fun y => .ofBindings (p.bindings y) := by
      rw [← findSome?_ite]
      exact congrArg (List.findSome? · (parts x)) (funext fun y => ih y .empty)
    unfold run holds bindings
    rw [hfound, ← List.isSome_find?]
    cases (parts x).find? p.holds with
    | none => rfl
    | some y => exact congrArg some (Captures.merge_ofBindings c (p.bindings y))

theorem captures?_eq (p : PatternOver V s) (x : V s) :
    p.captures? x = if p.holds x then some (.ofBindings (p.bindings x)) else none :=
  found?_run p x .empty

theorem isMatch_eq_holds (p : PatternOver V s) (x : V s) : p.isMatch x = p.holds x := by
  change (p.run x .empty).1 = _
  rw [← isSome_found?, found?_run]
  cases p.holds x with
  | true => rfl
  | false => rfl

/-- Of the parts of a value the first that matches counts. -/
theorem captures?_first (t : ι) (parts : V s → List (V t)) (p : PatternOver V t) (x : V s) :
    (first t parts p).captures? x = (parts x).findSome? p.captures? := by
  rw [funext (captures?_eq p), findSome?_ite, captures?_eq, holds, bindings, ← List.isSome_find?]
  cases (parts x).find? p.holds with
  | none => rfl
  | some y => rfl

end PatternOver

end HeaderBridge
