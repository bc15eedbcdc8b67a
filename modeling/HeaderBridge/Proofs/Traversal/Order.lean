/-
  Reading keeps the order in which the parts of an expression are visited. An Objective-C expression
  is visited by recursion, a Swift expression from a stack of what is still to be visited; both meet
  an expression before its parts and the parts in the order of the text. What reading makes of one
  expression is said once, with its parts left as they are; the rest is one induction on the parts.
-/
import HeaderBridge.Bridge.ExprReading

namespace HeaderBridge

/-! ## Kinds of expressions -/

inductive ExprTag where
  | constant | identifier | member | call | subscript | binary | unary | assignment | parens | cast
  | sizeOfType | sizeOfValue | ternary | block
  deriving DecidableEq

def Expr.tag : Expr → ExprTag
  | .constant _ => .constant
  | .identifier _ => .identifier
  | .member _ _ => .member
  | .call _ _ => .call
  | .subscript _ _ => .subscript
  | .binary _ _ _ => .binary
  | .unary _ _ => .unary
  | .assignment _ _ _ => .assignment
  | .parens _ => .parens
  | .cast _ _ => .cast
  | .sizeOfType _ => .sizeOfType
  | .sizeOfValue _ => .sizeOfValue
  | .ternary _ _ _ => .ternary
  | .block _ _ _ => .block

/-- What stands for an Objective-C expression without its parts: one Swift expression, but for a
    message the call of a member and, inside it, the member. -/
def ObjcExpr.swiftTags : ObjcExpr → List ExprTag
  | .literal _ => [.constant]
  | .ident _ => [.identifier]
  | .paren _ => [.parens]
  | .cast _ _ => [.cast]
  | .sizeOfType _ => [.sizeOfType]
  | .sizeOfValue _ => [.sizeOfValue]
  | .unary _ _ => [.unary]
  | .binary _ _ _ => [.binary]
  | .assign _ _ _ => [.assignment]
  | .ternary _ _ _ => [.ternary]
  | .member _ _ _ => [.member]
  | .call _ _ => [.call]
  | .subscript _ _ => [.subscript]
  | .message _ _ _ => [.call, .member]

/-! ## The stack of a visit -/

namespace Expr

/-- What lies on top of a stack is visited as if nothing were below it. -/
theorem visit_append (inBlocks : Bool) (es pending : List Expr) :
    visit inBlocks (es ++ pending) = visit inBlocks es ++ visit inBlocks pending := by
  induction es using visit.induct inBlocks with
  | case1 => rw [visit, List.nil_append, List.nil_append]
  | case2 e es ih =>
    rw [List.append_assoc] at ih
    rw [List.cons_append, visit, visit, ih, List.cons_append]

/-- A stack visits its expressions one after the other. -/
theorem visit_eq_flatMap (inBlocks : Bool) (es : List Expr) :
    visit inBlocks es = es.flatMap (sequence inBlocks) := by
  induction es with
  | nil => rw [visit, List.flatMap_nil]
  | cons e es ih => rw [← List.singleton_append, visit_append, ih, List.flatMap_append,
      List.flatMap_singleton, sequence]

/-- The kinds of the expressions that a visit meets. -/
def tags (inBlocks : Bool) (e : Expr) : List ExprTag :=
  (e.sequence inBlocks).map tag

/-- The recursion that the stack carries out. -/
theorem tags_eq (inBlocks : Bool) (e : Expr) :
    e.tags inBlocks = e.tag :: (e.children inBlocks).flatMap (tags inBlocks) := by
  rw [tags, sequence, visit, List.append_nil, visit_eq_flatMap, List.map_cons, List.map_flatMap]
  rfl

end Expr

/-! ## The parts of an Objective-C expression -/

namespace ObjcExpr

/-- The expressions directly inside, in the order of the text. -/
def parts : ObjcExpr → List ObjcExpr
  | .literal _ | .ident _ | .sizeOfType _ => []
  | .paren e | .cast _ e | .sizeOfValue e | .unary _ e | .member e _ _ => [e]
  | .binary _ lhs rhs | .assign _ lhs rhs | .subscript lhs rhs => [lhs, rhs]
  | .ternary condition yes no => [condition, yes, no]
  | .call callee arguments => callee :: arguments
  | .message receiver _ arguments => receiver :: arguments.map (·.value)

theorem sequenceAll_eq (es : List ObjcExpr) : sequenceAll es = es.flatMap sequence := by
  induction es with
  | nil => rfl
  | cons e es ih => rw [sequenceAll, ih, List.flatMap_cons]

theorem sequenceLabelled_eq (as : List (Labelled ObjcExpr)) :
    sequenceLabelled as = (as.map (·.value)).flatMap sequence := by
  induction as with
  | nil => rfl
  | cons a as ih => rw [sequenceLabelled, ih, List.map_cons, List.flatMap_cons]

theorem sequence_eq (e : ObjcExpr) : e.sequence = e :: e.parts.flatMap sequence := by
  cases e <;> simp [sequence, parts, sequenceAll_eq, sequenceLabelled_eq]

theorem sizeOf_lt_of_mem_parts {e part : ObjcExpr} (h : part ∈ e.parts) :
    sizeOf part < sizeOf e := by
  cases e with
  | call callee arguments =>
    obtain rfl | h := List.mem_cons.mp h
    · simp only [call.sizeOf_spec]
      omega
    · have := List.sizeOf_lt_of_mem h
      simp only [call.sizeOf_spec]
      omega
  | message receiver selector arguments =>
    obtain rfl | h := List.mem_cons.mp h
    · simp only [message.sizeOf_spec]
      omega
    · obtain ⟨⟨label, value⟩, ha, rfl⟩ := List.mem_map.mp h
      have := List.sizeOf_lt_of_mem ha
      simp only [message.sizeOf_spec, Labelled.mk.sizeOf_spec] at this ⊢
      omega
  | literal | ident | sizeOfType => cases h
  | paren | cast | sizeOfValue | unary | member =>
    obtain rfl := List.mem_singleton.mp h
    simp +arith
  | binary | assign | subscript =>
    obtain rfl | rfl : part = _ ∨ part = _ := by simpa [parts] using h
    all_goals simp +arith
  | ternary =>
    obtain rfl | rfl | rfl : part = _ ∨ part = _ ∨ part = _ := by simpa [parts] using h
    all_goals simp +arith

/-- What holds of an expression whenever it holds of its parts holds of every expression. -/
theorem induction_on_parts {P : ObjcExpr → Prop} (h : ∀ e, (∀ part ∈ e.parts, P part) → P e)
    (e : ObjcExpr) : P e :=
  h e fun part _ => induction_on_parts h part
termination_by e
decreasing_by exact sizeOf_lt_of_mem_parts ‹_›

/-! ## Reading one expression -/

/-- A literal has a value and a selector a method name. -/
def HasReading : ObjcExpr → Prop
  | .literal value => (Literal.constant? value).isSome
  | .message _ selector _ => (methodName? selector).isSome
  | _ => True

/-- A selector has no method name if nothing stands in front of its first colon. -/
theorem methodName?_eq_none_iff (selector : String) :
    methodName? selector = none ↔ ∀ c ∈ selector.toList.head?, c = ':' := by
  unfold methodName?
  cases selector.toList with
  | nil => simp
  | cons c cs => by_cases h : c = ':' <;> simp [h]

theorem not_hasReading_iff (e : ObjcExpr) :
    ¬ e.HasReading ↔
      (∃ value, e = .literal value ∧ Literal.constant? value = none) ∨
      ∃ receiver selector arguments, e = .message receiver selector arguments ∧
        ∀ c ∈ selector.toList.head?, c = ':' := by
  cases e with
  | literal value => simp [HasReading]
  | message receiver selector arguments =>
    rw [HasReading, Bool.not_eq_true, Option.isSome_eq_false_iff, Option.isNone_iff_eq_none,
      methodName?_eq_none_iff]
    constructor
    · intro h
      exact .inr ⟨_, _, _, rfl, h⟩
    · rintro (⟨value, h, -⟩ | ⟨receiver', selector', arguments', h, hnone⟩)
      · cases h
      · cases h
        exact hnone
  | _ => simp [HasReading]

variable {m : TypeMap} {e : ObjcExpr} {x : Expr}

/-- The kinds that a visit meets in what is read from an expression. -/
def readTags (m : TypeMap) (inBlocks : Bool) (e : ObjcExpr) : List ExprTag :=
  ((e.swift? m).map (Expr.tags inBlocks)).getD []

theorem readTags_of_swift? (inBlocks : Bool) (h : e.swift? m = some x) :
    e.readTags m inBlocks = x.tags inBlocks := by
  rw [readTags, h, Option.map_some, Option.getD_some]

theorem isSome_swiftAll? (m : TypeMap) (es : List ObjcExpr) :
    (swiftAll? m es).isSome ↔ ∀ e ∈ es, (e.swift? m).isSome := by
  induction es with
  | nil => simp [swiftAll?]
  | cons e es ih =>
    rw [List.forall_mem_cons, ← ih]
    cases he : e.swift? m <;> cases hes : swiftAll? m es <;> simp [swiftAll?, he, hes]

theorem isSome_swiftLabelled? (m : TypeMap) (as : List (Labelled ObjcExpr)) :
    (swiftLabelled? m as).isSome ↔ ∀ a ∈ as, (a.value.swift? m).isSome := by
  induction as with
  | nil => simp [swiftLabelled?]
  | cons a as ih =>
    rw [List.forall_mem_cons, ← ih]
    cases ha : a.value.swift? m <;> cases has : swiftLabelled? m as <;>
      simp [swiftLabelled?, ha, has]

/-- An expression is read if it has a reading and its parts are read. -/
theorem isSome_swift? (m : TypeMap) (e : ObjcExpr) :
    (e.swift? m).isSome ↔ e.HasReading ∧ ∀ part ∈ e.parts, (part.swift? m).isSome := by
  cases e with
  | literal | ident | sizeOfType => simp [swift?, HasReading, parts]
  | paren e | cast _ e | sizeOfValue e | unary _ e | member e =>
    cases he : e.swift? m <;> simp [swift?, HasReading, parts, he]
  | binary _ l r | assign _ l r | subscript l r =>
    cases hl : l.swift? m <;> cases hr : r.swift? m <;> simp [swift?, HasReading, parts, hl, hr]
  | ternary c y n =>
    cases hc : c.swift? m <;> cases hy : y.swift? m <;> cases hn : n.swift? m <;>
      simp [swift?, HasReading, parts, hc, hy, hn]
  | call callee es =>
    rw [parts, List.forall_mem_cons, ← isSome_swiftAll?]
    cases hes : swiftAll? m es <;> cases hc : callee.swift? m <;>
      simp [swift?, HasReading, hes, hc]
  | message receiver selector as =>
    rw [parts, List.forall_mem_cons, List.forall_mem_map, ← isSome_swiftLabelled?]
    cases hs : methodName? selector <;> cases has : swiftLabelled? m as <;>
      cases hr : receiver.swift? m <;> simp [swift?, HasReading, hs, has, hr]

theorem tags_swiftAll? (inBlocks : Bool) {es : List ObjcExpr} {xs : List (Labelled Expr)}
    (h : swiftAll? m es = some xs) :
    (xs.map (·.value)).flatMap (Expr.tags inBlocks) = es.flatMap (readTags m inBlocks) := by
  induction es generalizing xs with
  | nil =>
    cases h
    rfl
  | cons e es ih =>
    obtain ⟨y, hy, h⟩ := Option.bind_eq_some_iff.mp h
    obtain ⟨ys, hys, h⟩ := Option.bind_eq_some_iff.mp h
    cases h
    rw [List.map_cons, List.flatMap_cons, List.flatMap_cons, ih hys, readTags_of_swift? _ hy]

theorem tags_swiftLabelled? (inBlocks : Bool) {as : List (Labelled ObjcExpr)}
    {xs : List (Labelled Expr)} (h : swiftLabelled? m as = some xs) :
    (xs.map (·.value)).flatMap (Expr.tags inBlocks) =
      (as.map (·.value)).flatMap (readTags m inBlocks) := by
  induction as generalizing xs with
  | nil =>
    cases h
    rfl
  | cons a as ih =>
    obtain ⟨y, hy, h⟩ := Option.bind_eq_some_iff.mp h
    obtain ⟨ys, hys, h⟩ := Option.bind_eq_some_iff.mp h
    cases h
    rw [List.map_cons, List.map_cons, List.flatMap_cons, List.flatMap_cons, ih hys,
      readTags_of_swift? _ hy]

/-- Reading replaces the kind of one expression and leaves its parts in their order. -/
theorem tags_of_parts (inBlocks : Bool) (h : e.swift? m = some x) :
    x.tags inBlocks = e.swiftTags ++ e.parts.flatMap (readTags m inBlocks) := by
  rw [Expr.tags_eq]
  cases e with
  | literal =>
    obtain ⟨c, -, rfl⟩ := Option.map_eq_some_iff.mp h
    rfl
  | ident | sizeOfType =>
    cases h
    rfl
  | paren e | cast _ e | sizeOfValue e | unary _ e | member e =>
    obtain ⟨y, hy, h⟩ := Option.bind_eq_some_iff.mp h
    cases h
    simp [Expr.tag, Expr.children, swiftTags, parts, readTags_of_swift? _ hy]
  | binary _ l r | assign _ l r | subscript l r =>
    obtain ⟨y, hy, h⟩ := Option.bind_eq_some_iff.mp h
    obtain ⟨z, hz, h⟩ := Option.bind_eq_some_iff.mp h
    cases h
    simp [Expr.tag, Expr.children, swiftTags, parts, readTags_of_swift? _ hy,
      readTags_of_swift? _ hz]
  | ternary c y n =>
    obtain ⟨u, hu, h⟩ := Option.bind_eq_some_iff.mp h
    obtain ⟨v, hv, h⟩ := Option.bind_eq_some_iff.mp h
    obtain ⟨w, hw, h⟩ := Option.bind_eq_some_iff.mp h
    cases h
    simp [Expr.tag, Expr.children, swiftTags, parts, readTags_of_swift? _ hu,
      readTags_of_swift? _ hv, readTags_of_swift? _ hw]
  | call callee es =>
    obtain ⟨ys, hys, h⟩ := Option.bind_eq_some_iff.mp h
    obtain ⟨y, hy, h⟩ := Option.bind_eq_some_iff.mp h
    cases h
    simp [Expr.tag, Expr.children, swiftTags, parts, readTags_of_swift? _ hy,
      ← tags_swiftAll? _ hys]
  | message receiver selector as =>
    obtain ⟨name, -, h⟩ := Option.bind_eq_some_iff.mp h
    obtain ⟨ys, hys, h⟩ := Option.bind_eq_some_iff.mp h
    obtain ⟨y, hy, h⟩ := Option.bind_eq_some_iff.mp h
    cases h
    simp only [Expr.tag, Expr.children, swiftTags, parts, List.flatMap_cons,
      readTags_of_swift? _ hy, ← tags_swiftLabelled? _ hys, Expr.tags_eq _ (.member y name),
      List.flatMap_nil, List.append_nil, List.cons_append, List.nil_append]

/-! ## Reading a whole expression -/

/-- An expression is read if everything inside it has a reading. -/
theorem isSome_swift?_iff (m : TypeMap) (e : ObjcExpr) :
    (e.swift? m).isSome ↔ ∀ part ∈ e.sequence, part.HasReading := by
  induction e using induction_on_parts with
  | h e ih =>
    rw [isSome_swift?, sequence_eq, List.forall_mem_cons, List.forall_mem_flatMap]
    exact and_congr_right' (forall₂_congr ih)

/-- A visit of what is read meets the kinds of a visit of the source in the same order. -/
theorem tags_swift? (inBlocks : Bool) (h : e.swift? m = some x) :
    x.tags inBlocks = e.sequence.flatMap swiftTags := by
  induction e using induction_on_parts generalizing x with
  | h e ih =>
    rw [tags_of_parts inBlocks h, sequence_eq, List.flatMap_cons, List.flatMap_assoc]
    obtain ⟨-, hparts⟩ := (isSome_swift? m e).mp (h ▸ rfl)
    have hsame : ∀ part ∈ e.parts, part.readTags m inBlocks = part.sequence.flatMap swiftTags := by
      intro part hpart
      obtain ⟨y, hy⟩ := Option.isSome_iff_exists.mp (hparts part hpart)
      rw [readTags_of_swift? inBlocks hy, ih part hpart hy]
    simp only [List.flatMap_def, List.map_congr_left hsame]

end ObjcExpr

/-- With any type map, a visit of the Swift expression that is read meets one expression after the
    other the kinds that stand for the source's expressions, bodies of closures visited or not; and
    nothing is read if and only if there is a literal without a value inside, or a selector that
    is empty or starts with a colon. -/
theorem visits_in_order (m : TypeMap) (e : ObjcExpr) :
    (∀ x, e.swift? m = some x → ∀ inBlocks,
      (x.sequence inBlocks).map Expr.tag = e.sequence.flatMap ObjcExpr.swiftTags) ∧
    (e.swift? m = none ↔ ∃ part ∈ e.sequence,
      (∃ value, part = .literal value ∧ Literal.constant? value = none) ∨
      ∃ receiver selector arguments, part = .message receiver selector arguments ∧
        ∀ c ∈ selector.toList.head?, c = ':') := by
  refine ⟨fun x hx inBlocks => ObjcExpr.tags_swift? inBlocks hx, ?_⟩
  rw [← Option.not_isSome_iff_eq_none, ObjcExpr.isSome_swift?_iff]
  simp only [Classical.not_forall, exists_prop, ObjcExpr.not_hasReading_iff]

/-- `[a insert:nil at:b[YES]]` is read and visited as a call of a member; `[a :nil]` is not read. -/
theorem visits_in_order_message :
    (∃ x, (ObjcExpr.message (.ident "a") "insert:at:"
        [⟨none, .literal .nil⟩, ⟨some "at", .subscript (.ident "b") (.literal (.bool true))⟩]).swift? {}
          = some x ∧
      (x.sequence true).map Expr.tag =
        [.call, .member, .identifier, .constant, .subscript, .identifier, .constant]) ∧
    (ObjcExpr.message (.ident "a") ":" [⟨none, .literal .nil⟩]).swift? {} = none := by
  refine ⟨⟨_, rfl, ?_⟩, ?_⟩
  · exact (visits_in_order {} (.message (.ident "a") "insert:at:"
      [⟨none, .literal .nil⟩, ⟨some "at", .subscript (.ident "b") (.literal (.bool true))⟩])).1
      _ rfl true
  · refine (visits_in_order {} _).2.mpr ⟨_, List.mem_cons_self, .inr ⟨_, _, _, rfl, ?_⟩⟩
    rintro _ ⟨⟩
    rfl

end HeaderBridge
