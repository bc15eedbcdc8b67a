/-
  A search goes through an expression in pre-order. The visit that it goes by works off a stack;
  `preorder` says the same by recursion on the form of the expression (`sequence_eq_preorder`), and
  what a search finds is told by it: the captures of the first expression that matches
  (`captures?_findAny`). An expression inside one that is visited is itself visited
  (`preorder_subset`), so to search for a search finds nothing else.
-/
import HeaderBridge.Proofs.Matching.Meaning
import HeaderBridge.Proofs.Traversal.Order

namespace HeaderBridge

/-! ## The order -/

namespace Expr

mutual

/-- The expression and all those inside it, each in front of its parts and the parts in the order of
    the text. The bodies of closures are left out. -/
def preorder : Expr → List Expr
  | .constant c => [.constant c]
  | .identifier name => [.identifier name]
  | .member base name => .member base name :: preorder base
  | .call callee arguments =>
    .call callee arguments :: (preorder callee ++ argumentsPreorder arguments)
  | .subscript base index => .subscript base index :: (preorder base ++ preorder index)
  | .binary lhs op rhs => .binary lhs op rhs :: (preorder lhs ++ preorder rhs)
  | .unary op operand => .unary op operand :: preorder operand
  | .assignment lhs op rhs => .assignment lhs op rhs :: (preorder lhs ++ preorder rhs)
  | .parens inner => .parens inner :: preorder inner
  | .cast value type => .cast value type :: preorder value
  | .sizeOfType type => [.sizeOfType type]
  | .sizeOfValue value => .sizeOfValue value :: preorder value
  | .ternary condition yes no =>
    .ternary condition yes no :: (preorder condition ++ (preorder yes ++ preorder no))
  | .block parameters result body => [.block parameters result body]

def argumentsPreorder : List (Labelled Expr) → List Expr
  | [] => []
  | a :: as => preorder a.value ++ argumentsPreorder as

end

theorem argumentsPreorder_eq (as : List (Labelled Expr)) :
    argumentsPreorder as = (as.map (·.value)).flatMap preorder := by
  induction as with
  | nil => rfl
  | cons a as ih => rw [argumentsPreorder, ih, List.map_cons, List.flatMap_cons]

/-- Whatever the form of an expression, its parts come behind it one after the other. -/
theorem preorder_eq (e : Expr) : e.preorder = e :: (e.children false).flatMap preorder := by
  cases e with
  | call callee arguments =>
    rw [preorder, argumentsPreorder_eq, children, List.flatMap_cons]
  | _ => simp [preorder, children]

/-! ### Induction on the parts -/

theorem size_le_listSize {e : Expr} {es : List Expr} (h : e ∈ es) : e.size ≤ listSize es := by
  induction es with
  | nil => nomatch h
  | cons d es ih =>
    rw [listSize]
    obtain rfl | h := List.mem_cons.mp h
    · exact Nat.le_add_right _ _
    · exact Nat.le_add_left_of_le (ih h)

theorem size_lt_of_mem_children {inBlocks : Bool} {e part : Expr} (h : part ∈ e.children inBlocks) :
    part.size < e.size :=
  Nat.lt_of_le_of_lt (size_le_listSize h) (listSize_children inBlocks e)

/-- What holds of an expression whenever it holds of its parts holds of every expression. -/
theorem induction_on_children (inBlocks : Bool) {P : Expr → Prop}
    (h : ∀ e : Expr, (∀ part ∈ e.children inBlocks, P part) → P e) (e : Expr) : P e :=
  h e fun part _ => induction_on_children inBlocks h part
termination_by e.size
decreasing_by exact size_lt_of_mem_children ‹_›

/-! ### The stack and the recursion -/

theorem sequence_eq (inBlocks : Bool) (e : Expr) :
    e.sequence inBlocks = e :: (e.children inBlocks).flatMap (sequence inBlocks) := by
  rw [sequence, visit, List.append_nil, visit_eq_flatMap]

/-- The stack is worked off in the order that the recursion gives. -/
theorem sequence_eq_preorder (e : Expr) : e.sequence false = e.preorder := by
  induction e using induction_on_children false with
  | h e ih => rw [sequence_eq, preorder_eq, List.flatMap_def, List.map_congr_left ih,
      ← List.flatMap_def]

/-- What is inside something inside an expression is inside the expression. -/
theorem preorder_subset {e inner : Expr} (h : inner ∈ e.preorder) : inner.preorder ⊆ e.preorder := by
  induction e using induction_on_children false with
  | h e ih =>
    rw [preorder_eq] at h
    obtain rfl | h := List.mem_cons.mp h
    · exact List.Subset.refl _
    · obtain ⟨part, hpart, hinner⟩ := List.mem_flatMap.mp h
      intro x hx
      rw [preorder_eq]
      exact List.mem_cons_of_mem _ (List.mem_flatMap.mpr ⟨part, hpart, ih part hpart hinner hx⟩)

end Expr

/-! ## The search -/

namespace PatternOver

theorem captures?_eq_none_iff {ι : Type} {V : ι → Type} {s : ι} {p : PatternOver V s} {x : V s} :
    p.captures? x = none ↔ p.isMatch x = false := by
  change found? (p.run x .empty) = none ↔ (p.run x .empty).1 = false
  rw [← isSome_found?, Option.isSome_eq_false_iff, Option.isNone_iff_eq_none]

/-- A search finds what the first expression records that matches. -/
theorem captures?_findAny (p : Pattern .expr) (e : Expr) :
    (findAny p).captures? e = e.preorder.findSome? p.captures? := by
  rw [findAny, captures?_first, Expr.sequence_eq_preorder]

/-- What a search writes into a map of others is what it finds. -/
theorem run_findAny (p : Pattern .expr) (e : Expr) (c : Captures) :
    (findAny p).run e c =
      match (findAny p).captures? e with
      | some found => (true, c.merge found)
      | none => (false, c) := by
  rw [captures?_findAny, ← Expr.sequence_eq_preorder]
  rfl

/-- The first place where a search would find something is the first place of the search. -/
theorem captures?_findAny_findAny (p : Pattern .expr) (e : Expr) :
    (findAny (findAny p)).captures? e = (findAny p).captures? e := by
  rw [captures?_findAny (findAny p) e]
  cases hfound : (findAny p).captures? e with
  | some c => rw [Expr.preorder_eq, List.findSome?_cons, hfound]
  | none =>
    rw [captures?_findAny, List.findSome?_eq_none_iff] at hfound
    refine List.findSome?_eq_none_iff.mpr fun inner hinner => ?_
    rw [captures?_findAny]
    exact List.findSome?_eq_none_iff.mpr fun x hx => hfound x (Expr.preorder_subset hinner hx)

/-- A search yields the captures of the first expression, in pre-order and with the bodies of
    closures left out, that matches, and fails just if none does. To search for a search is
    therefore to search: it matches the same expressions and records the same, and it writes the
    same into a map that others write into as well. -/
theorem findAny_first (p : Pattern .expr) (e : Expr) :
    (∀ c, (findAny p).captures? e = some c ↔ ∃ before x after,
      e.preorder = before ++ x :: after ∧ (∀ y ∈ before, p.isMatch y = false) ∧
        p.captures? x = some c) ∧
    ((findAny p).captures? e = none ↔ ∀ x ∈ e.preorder, p.isMatch x = false) ∧
    (findAny (findAny p)).captures? e = (findAny p).captures? e ∧
    ∀ c, (findAny (findAny p)).run e c = (findAny p).run e c := by
  refine ⟨fun c => ?_, ?_, captures?_findAny_findAny p e, fun c => ?_⟩
  · simp only [captures?_findAny, List.findSome?_eq_some_iff, captures?_eq_none_iff,
      and_comm (a := p.captures? _ = some c)]
  · simp only [captures?_findAny, List.findSome?_eq_none_iff, captures?_eq_none_iff]
  · rw [run_findAny, run_findAny, captures?_findAny_findAny]

/-- The callee is searched in front of the arguments, and a closure is not searched. -/
example : (findAny (ident (.bind "found" .string))).captures?
    (.call (.member (.block [] (.named "Void") [.identifier "a"]) "m")
      [⟨none, .parens (.identifier "b")⟩, ⟨none, .identifier "c"⟩]) =
    some ⟨[("found", .string "b")]⟩ := by
  rw [captures?_findAny]
  rfl

end PatternOver

end HeaderBridge
