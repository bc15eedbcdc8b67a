/-
  What the type of an expression sees of its parts. A frame is an expression around one direct part,
  and a context is a row of frames, the innermost first. No frame looks at more of its part than the
  type, but for a call, which looks at the form of its callee; what it sees there is what it sees of
  any part that a frame stands around (`Frame.interchangeable_plug`). So the expression in a context
  matters by its type alone, unless it is called itself (`type?_fill_congr`).
-/
import HeaderBridge.Typing.Resolution

namespace HeaderBridge.Expr

/-! ## Contexts -/

/-- An expression around one of its parts. -/
inductive Frame where
  | parens
  | cast (type : SwiftType)
  | sizeOfValue
  | unary (op : SwiftOperator)
  | lhs (op : SwiftOperator) (rhs : Expr)
  | rhs (lhs : Expr) (op : SwiftOperator)
  /-- What is assigned to. -/
  | target (op : SwiftOperator) (value : Expr)
  /-- What is assigned. -/
  | value (target : Expr) (op : SwiftOperator)
  | condition (yes no : Expr)
  | yes (condition no : Expr)
  | no (condition yes : Expr)
  /-- What a member is taken of. With the call of that member around it, this is a receiver. -/
  | member (name : String)
  | callee (arguments : List (Labelled Expr))
  | argument (callee : Expr) (before : List (Labelled Expr)) (label : Option String)
      (after : List (Labelled Expr))
  /-- What a subscript is taken of. -/
  | base (index : Expr)
  | index (base : Expr)
  /-- One expression in the body of a closure. -/
  | body (parameters : List (String × SwiftType)) (result : SwiftType) (before after : List Expr)

/-- The part with a frame around it. -/
def plug (e : Expr) : Frame → Expr
  | .parens => .parens e
  | .cast type => .cast e type
  | .sizeOfValue => .sizeOfValue e
  | .unary op => .unary op e
  | .lhs op rhs => .binary e op rhs
  | .rhs lhs op => .binary lhs op e
  | .target op value => .assignment e op value
  | .value target op => .assignment target op e
  | .condition yes no => .ternary e yes no
  | .yes condition no => .ternary condition e no
  | .no condition yes => .ternary condition yes e
  | .member name => .member e name
  | .callee arguments => .call e arguments
  | .argument callee before label after => .call callee (before ++ ⟨label, e⟩ :: after)
  | .base index => .subscript e index
  | .index base => .subscript base e
  | .body parameters result before after => .block parameters result (before ++ e :: after)

/-- An expression with a hole in it, as the frames around the hole. The innermost one comes first. -/
abbrev Context := List Frame

namespace Context

/-- The expression with something in place of the hole. -/
def fill (C : Context) (e : Expr) : Expr := C.foldl plug e

/-- Whether the hole itself is the callee of a call. -/
def CallsHole : Context → Prop
  | .callee _ :: _ => True
  | _ => False

end Context

/-! ## What a frame sees -/

variable {r : Registry} {s : Scope} {e e' : Expr}

/-- Two expressions of one type, so that calls of them have one type too. -/
structure Interchangeable (r : Registry) (s : Scope) (e e' : Expr) : Prop where
  type : e.type? r s = e'.type? r s
  called : ∀ arguments, (Expr.call e arguments).type? r s = (Expr.call e' arguments).type? r s

/-- Of the arguments of a call only the number counts. -/
theorem type?_call_of_length {arguments arguments' : List (Labelled Expr)}
    (h : arguments.length = arguments'.length) (callee : Expr) :
    (Expr.call callee arguments).type? r s = (Expr.call callee arguments').type? r s := by
  cases callee with
  | member receiver name => simp only [type?, h]
  | identifier name => simp only [type?, h]
  | _ => rfl

/-- A frame that does not call its part sees the type alone, and what calls the whole sees no more. -/
theorem Frame.interchangeable_plug {F : Frame} (hF : ∀ arguments, F ≠ .callee arguments)
    (h : e.type? r s = e'.type? r s) : Interchangeable r s (e.plug F) (e'.plug F) := by
  cases F with
  | callee arguments => exact absurd rfl (hF arguments)
  | member name =>
    exact ⟨by simp only [plug, type?, h], fun _ => by simp only [plug, type?, h]⟩
  | argument callee before label after =>
    exact ⟨type?_call_of_length (by simp) callee, fun _ => rfl⟩
  | index base => exact ⟨rfl, fun _ => rfl⟩
  | body parameters result before after => exact ⟨rfl, fun _ => rfl⟩
  | _ => exact ⟨by simp only [plug, type?, h], fun _ => rfl⟩

/-- Every frame sees no more than the type, and what a call sees. -/
theorem Interchangeable.plug (h : Interchangeable r s e e') (F : Frame) :
    Interchangeable r s (e.plug F) (e'.plug F) := by
  cases F with
  | callee arguments => exact ⟨h.called arguments, fun _ => rfl⟩
  | _ => exact Frame.interchangeable_plug (fun _ => Frame.noConfusion) h.type

theorem Interchangeable.fill (h : Interchangeable r s e e') (C : Context) :
    Interchangeable r s (C.fill e) (C.fill e') := by
  induction C generalizing e e' with
  | nil => exact h
  | cons F C ih => exact ih (h.plug F)

/-! ## What a context sees -/

/-- Calls of two names that stand for no value, of which one is a function. -/
theorem exists_call_type?_ne (arguments : List (Labelled Expr)) :
    ∃ (r : Registry) (s : Scope) (e e' : Expr), e.type? r s = e'.type? r s ∧
      (Context.fill [.callee arguments] e).type? r s ≠
        (Context.fill [.callee arguments] e').type? r s := by
  let f : Signature :=
    { name := "f", parameters := arguments.map fun _ => .unlabelled "x" .int, returns := .int }
  refine ⟨.empty, .ofDefinitions [.function f], .identifier "f", .identifier "g", rfl, ?_⟩
  have hf : (Expr.call (.identifier "f") arguments).type? .empty (.ofDefinitions [.function f]) =
      some .int := by
    have harity : (f.arity == arguments.length) = true := beq_iff_eq.mpr (List.length_map _)
    have hfunctions : (Scope.ofDefinitions [.function f]).functions "f" = [f] := rfl
    have hfound : [f].find? (·.arity == arguments.length) = some f := List.find?_cons_of_pos harity
    rw [type?, hfunctions, hfound]
    rfl
  show (Expr.call (.identifier "f") arguments).type? .empty (.ofDefinitions [.function f]) ≠ none
  rw [hf]
  exact Option.some_ne_none _

/-- Two expressions of one type, or of none, give every context the same type, unless the context
    calls what is in it. A callee is not seen by its type: whatever the arguments are, there are two
    expressions without a type that make a difference there. -/
theorem type?_fill_congr :
    (∀ (C : Context), ¬ C.CallsHole → ∀ (r : Registry) (s : Scope) (e e' : Expr),
      e.type? r s = e'.type? r s → (C.fill e).type? r s = (C.fill e').type? r s) ∧
    ∀ arguments, ∃ (r : Registry) (s : Scope) (e e' : Expr), e.type? r s = e'.type? r s ∧
      (Context.fill [.callee arguments] e).type? r s ≠
        (Context.fill [.callee arguments] e').type? r s := by
  refine ⟨fun C hC r s e e' h => ?_, exists_call_type?_ne⟩
  cases C with
  | nil => exact h
  | cons F C =>
    have hF : ∀ arguments, F ≠ .callee arguments := by
      rintro arguments rfl
      exact hC trivial
    exact ((Frame.interchangeable_plug hF h).fill C).type

/-- The receiver of a method in an argument, below two operators: a variable, and a choice between two
    values of its type. -/
theorem type?_fill_congr_receiver : ∃ (C : Context) (r : Registry) (s : Scope) (e e' : Expr),
    ¬ C.CallsHole ∧ e.type? r s = e'.type? r s ∧ e.type? r s = some (.named "A") ∧
    (C.fill e).type? r s = some .bool ∧ (C.fill e).type? r s = (C.fill e').type? r s := by
  let count : Signature := { name := "count", parameters := [], returns := .int }
  let r : Registry := ⟨[{ name := "A", methods := [count] }]⟩
  let s : Scope := .ofDefinitions [.value "x" (.var (.named "A")), .value "b" (.var .bool)]
  let C : Context := [.member "count", .callee [], .rhs (.int 1) .add, .parens, .lhs .less (.int 2)]
  let e : Expr := .identifier "x"
  let e' : Expr := .ternary (.identifier "b") e (.parens e)
  have hC : ¬ C.CallsHole := id
  have hsame : e.type? r s = e'.type? r s := rfl
  exact ⟨C, r, s, e, e', hC, hsame, rfl, by cbv, type?_fill_congr.1 C hC r s e e' hsame⟩

end HeaderBridge.Expr
