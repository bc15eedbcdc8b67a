/-
  Which names must be known for an expression to have a type. Each operand is typed, also where its
  type does not matter, but the arguments of a call are only counted and the index of a subscript is
  not looked at. So the names of values outside these parts are known (`Expr.exists_type_of_names`),
  and the names inside them need not be: an expression has the type that it has with `nil` in place
  of each such part (`Expr.type?_outline`). A macro whose body mentions an unknown name outside them
  is not made a constant (`MacroConstant.ofDirective?_eq_none`).
-/
import HeaderBridge.Proofs.Folding.Meaning
import Mathlib

namespace HeaderBridge

namespace Expr

/-! ## Names and parts -/

mutual

/-- The names that stand for values: all names outside the bodies of closures, but for those of
    functions that are called. -/
def valueNames : Expr → List String
  | .constant _ | .sizeOfType _ | .block _ _ _ => []
  | .identifier name => [name]
  | .parens e | .cast e _ | .sizeOfValue e | .unary _ e | .member e _ => valueNames e
  | .binary lhs _ rhs | .assignment lhs _ rhs => valueNames lhs ++ valueNames rhs
  | .ternary condition yes no => valueNames condition ++ valueNames yes ++ valueNames no
  | .subscript base index => valueNames base ++ valueNames index
  | .call (.identifier _) arguments => argumentNames arguments
  | .call callee arguments => valueNames callee ++ argumentNames arguments

def argumentNames : List (Labelled Expr) → List String
  | [] => []
  | a :: as => valueNames a.value ++ argumentNames as

end

/-- The arguments of calls and the indices of subscripts that do not lie in others. -/
def aside : Expr → List Expr
  | .constant _ | .identifier _ | .sizeOfType _ | .block _ _ _ => []
  | .parens e | .cast e _ | .sizeOfValue e | .unary _ e | .member e _ => aside e
  | .binary lhs _ rhs | .assignment lhs _ rhs => aside lhs ++ aside rhs
  | .ternary condition yes no => aside condition ++ aside yes ++ aside no
  | .subscript base index => aside base ++ [index]
  | .call callee arguments => aside callee ++ arguments.map (·.value)

/-- The expression with `nil` for each argument of a call and each index of a subscript. -/
def outline : Expr → Expr
  | .parens e => .parens (outline e)
  | .cast e type => .cast (outline e) type
  | .sizeOfValue e => .sizeOfValue (outline e)
  | .unary op e => .unary op (outline e)
  | .member e name => .member (outline e) name
  | .binary lhs op rhs => .binary (outline lhs) op (outline rhs)
  | .assignment lhs op rhs => .assignment (outline lhs) op (outline rhs)
  | .ternary condition yes no => .ternary (outline condition) (outline yes) (outline no)
  | .subscript base _ => .subscript (outline base) .nil
  | .call callee arguments => .call (outline callee) (arguments.map fun _ => ⟨none, .nil⟩)
  | e => e

variable {r : Registry} {s : Scope} {t : SwiftType}

/-- Of the arguments of a call only the number counts, and an index does not count at all. -/
theorem type?_outline (r : Registry) (s : Scope) (e : Expr) :
    e.outline.type? r s = e.type? r s := by
  fun_induction Expr.names e
  case case1 | case2 | case3 | case4 => rfl
  case case5 ih | case6 ih | case7 ih | case8 ih | case9 ih | case10 ih =>
    simp only [outline, type?, ih]
  case case11 ihl ihr | case12 ihl ihr => simp only [outline, type?, ihl, ihr]
  case case13 ihc ihy ihn => simp only [outline, type?, ihc, ihy, ihn]
  case case14 ih => simp only [outline, type?, ih, List.length_map]
  case case15 callee arguments hcallee =>
    cases callee with
    | member receiver name => exact absurd rfl (hcallee receiver name)
    | identifier name => simp only [outline, type?, List.length_map]
    | _ => simp only [outline, type?]

/-- The names that count are known. -/
theorem exists_type_of_names {e : Expr} (h : e.type? r s = some t) :
    ∀ name ∈ e.names, ∃ u, s.typeOf? name = some u := by
  fun_induction Expr.names e generalizing t
  case case1 | case2 | case3 | case15 => exact List.forall_mem_nil _
  case case4 name =>
    intro other hother
    rw [List.mem_singleton.mp hother]
    exact ⟨t, h⟩
  case case5 ih => exact ih h
  case case6 ih | case7 ih | case8 ih | case9 ih | case10 ih | case14 ih =>
    obtain ⟨u, hu, -⟩ := Option.bind_eq_some_iff.mp h
    exact ih hu
  case case11 ihl ihr | case12 ihl ihr =>
    obtain ⟨u, hu, h⟩ := Option.bind_eq_some_iff.mp h
    obtain ⟨v, hv, -⟩ := Option.bind_eq_some_iff.mp h
    exact List.forall_mem_append.mpr ⟨ihl hu, ihr hv⟩
  case case13 ihc ihy ihn =>
    obtain ⟨u, hu, h⟩ := Option.bind_eq_some_iff.mp h
    obtain ⟨v, hv, h⟩ := Option.bind_eq_some_iff.mp h
    obtain ⟨w, hw, -⟩ := Option.bind_eq_some_iff.mp h
    exact List.forall_mem_append.mpr ⟨List.forall_mem_append.mpr ⟨ihc hu, ihy hv⟩, ihn hw⟩

theorem argumentNames_eq (arguments : List (Labelled Expr)) :
    argumentNames arguments = (arguments.map (·.value)).flatMap valueNames := by
  induction arguments with
  | nil => rfl
  | cons a as ih => simp [argumentNames, ih]

/-- Each place where a typed expression names a value counts, or it lies in an argument or in an
    index. -/
theorem count_valueNames {e : Expr} (h : e.type? r s = some t) (name : String) :
    e.valueNames.count name =
      e.names.count name + (e.aside.flatMap valueNames).count name := by
  fun_induction Expr.names e generalizing t
  case case1 | case2 | case3 | case4 => simp [valueNames, aside]
  case case5 ih => exact ih h
  case case6 ih | case7 ih | case8 ih | case9 ih =>
    obtain ⟨u, hu, -⟩ := Option.bind_eq_some_iff.mp h
    exact ih hu
  case case10 ih =>
    obtain ⟨u, hu, -⟩ := Option.bind_eq_some_iff.mp h
    simp [valueNames, aside, ih hu, List.count_append, Nat.add_assoc]
  case case11 ihl ihr | case12 ihl ihr =>
    obtain ⟨u, hu, h⟩ := Option.bind_eq_some_iff.mp h
    obtain ⟨v, hv, -⟩ := Option.bind_eq_some_iff.mp h
    simp only [valueNames, aside, List.flatMap_append, List.count_append, ihl hu, ihr hv]
    omega
  case case13 ihc ihy ihn =>
    obtain ⟨u, hu, h⟩ := Option.bind_eq_some_iff.mp h
    obtain ⟨v, hv, h⟩ := Option.bind_eq_some_iff.mp h
    obtain ⟨w, hw, -⟩ := Option.bind_eq_some_iff.mp h
    simp only [valueNames, aside, List.flatMap_append, List.count_append, ihc hu, ihy hv, ihn hw]
    omega
  case case14 ih =>
    obtain ⟨u, hu, -⟩ := Option.bind_eq_some_iff.mp h
    simp [valueNames, aside, argumentNames_eq, ih hu, List.count_append, Nat.add_assoc]
  case case15 callee arguments hcallee =>
    cases callee with
    | member receiver name => exact absurd rfl (hcallee receiver name)
    | identifier name => simp [valueNames, aside, argumentNames_eq]
    | _ => cases h

end Expr

/-! ## Bodies of macros -/

namespace ObjcExpr

/-- The names that stand for values outside the arguments of calls and messages and outside the
    indices of subscripts, but for those of functions that are called. -/
def names : ObjcExpr → List String
  | .literal _ | .sizeOfType _ => []
  | .ident name => [name]
  | .paren e | .cast _ e | .sizeOfValue e | .unary _ e | .member e _ _ | .subscript e _ => names e
  | .binary _ lhs rhs | .assign _ lhs rhs => names lhs ++ names rhs
  | .ternary condition yes no => names condition ++ names yes ++ names no
  | .message receiver _ _ => names receiver
  | .call (.member receiver _ _) _ => names receiver
  | .call _ _ => []

variable {m : TypeMap} {e callee : ObjcExpr} {value base : Expr} {name : String}

/-- Only the access to a member becomes one. -/
theorem exists_member_of_swift? (h : callee.swift? m = some (.member base name)) :
    ∃ inner arrow, callee = .member inner name arrow := by
  cases callee with
  | member inner own arrow =>
    obtain ⟨e, -, he⟩ := Option.bind_eq_some_iff.mp h
    cases he
    exact ⟨inner, arrow, rfl⟩
  | _ => simp [swift?, Option.bind_eq_some_iff] at h

/-- The Swift expression has the same names where they count. -/
theorem names_swift? (h : e.swift? m = some value) : value.names = e.names := by
  fun_induction ObjcExpr.names e generalizing value
  case case1 =>
    obtain ⟨c, -, rfl⟩ := Option.map_eq_some_iff.mp h
    rfl
  case case2 | case3 =>
    cases h
    rfl
  case case4 ih | case5 ih | case6 ih | case7 ih | case8 ih =>
    obtain ⟨u, hu, h⟩ := Option.bind_eq_some_iff.mp h
    cases h
    exact (ih hu :)
  case case9 ih =>
    obtain ⟨u, hu, h⟩ := Option.bind_eq_some_iff.mp h
    obtain ⟨v, -, h⟩ := Option.bind_eq_some_iff.mp h
    cases h
    exact (ih hu :)
  case case10 ihl ihr | case11 ihl ihr =>
    obtain ⟨u, hu, h⟩ := Option.bind_eq_some_iff.mp h
    obtain ⟨v, hv, h⟩ := Option.bind_eq_some_iff.mp h
    cases h
    rw [Expr.names, ihl hu, ihr hv]
  case case12 ihc ihy ihn =>
    obtain ⟨u, hu, h⟩ := Option.bind_eq_some_iff.mp h
    obtain ⟨v, hv, h⟩ := Option.bind_eq_some_iff.mp h
    obtain ⟨w, hw, h⟩ := Option.bind_eq_some_iff.mp h
    cases h
    rw [Expr.names, ihc hu, ihy hv, ihn hw]
  case case13 ih =>
    obtain ⟨name, -, h⟩ := Option.bind_eq_some_iff.mp h
    obtain ⟨arguments, -, h⟩ := Option.bind_eq_some_iff.mp h
    obtain ⟨u, hu, h⟩ := Option.bind_eq_some_iff.mp h
    cases h
    exact (ih hu :)
  case case14 ih =>
    obtain ⟨arguments, -, h⟩ := Option.bind_eq_some_iff.mp h
    obtain ⟨v, hv, h⟩ := Option.bind_eq_some_iff.mp h
    obtain ⟨u, hu, hv⟩ := Option.bind_eq_some_iff.mp hv
    cases hv
    cases h
    exact (ih hu :)
  case case15 callee arguments hcallee =>
    obtain ⟨swiftArguments, -, h⟩ := Option.bind_eq_some_iff.mp h
    obtain ⟨v, hv, h⟩ := Option.bind_eq_some_iff.mp h
    cases h
    cases v with
    | member base name =>
      obtain ⟨inner, arrow, rfl⟩ := exists_member_of_swift? hv
      exact absurd rfl (hcallee inner name arrow)
    | _ => rfl

end ObjcExpr

/-- A macro is not made a constant if its body names an unknown value where that counts. -/
theorem MacroConstant.ofDirective?_eq_none {w : Surroundings} {p : Plan} {f : FilePlan}
    {directive : String} {m : MacroDefinition} {body : ObjcExpr} {name : String}
    (hm : MacroDefinition.ofDirective? directive = some m) (hbody : m.expression? = some body)
    (hname : name ∈ body.names) (hunknown : (w.scope f).typeOf? name = none) :
    MacroConstant.ofDirective? w p f directive = none := by
  cases hc : MacroConstant.ofDirective? w p f directive with
  | none => rfl
  | some c =>
    unfold MacroConstant.ofDirective? at hc
    rw [hm, Option.bind_eq_bind, Option.bind_some, hbody, Option.bind_eq_bind,
      Option.bind_some] at hc
    split at hc
    · obtain ⟨value, hvalue, hc⟩ := Option.bind_eq_some_iff.mp hc
      obtain ⟨type, htype, -⟩ := Option.bind_eq_some_iff.mp hc
      rw [← ObjcExpr.names_swift? hvalue] at hname
      obtain ⟨u, hu⟩ := Expr.exists_type_of_names htype name hname
      rw [hunknown] at hu
      cases hu
    · cases hc

/-! ## What a type says of the names -/

/-- With the values of a scope: if an expression has a type, the names that count are known; the
    others lie in arguments of calls and in indices, so all names are known if and only if the names
    there are. What stands there is not looked at: any expression with the same outline has the same
    type. And a macro with an unknown name that counts is not made a constant. -/
theorem known_names_of_typed (s : Scope) :
    (∀ (r : Registry) (e : Expr) (t : SwiftType), e.type? r s = some t →
      (∀ name ∈ e.names, ∃ u, s.typeOf? name = some u) ∧
      e.valueNames.Perm (e.names ++ e.aside.flatMap Expr.valueNames) ∧
      ((∀ name ∈ e.valueNames, ∃ u, s.typeOf? name = some u) ↔
        ∀ part ∈ e.aside, ∀ name ∈ part.valueNames, ∃ u, s.typeOf? name = some u) ∧
      ∀ e' : Expr, e'.outline = e.outline → e'.type? r s = some t) ∧
    ∀ (w : Surroundings) (p : Plan) (f : FilePlan) (directive : String) (m : MacroDefinition)
      (body : ObjcExpr) (name : String), w.scope f = s →
      MacroDefinition.ofDirective? directive = some m → m.expression? = some body →
      name ∈ body.names → s.typeOf? name = none →
      MacroConstant.ofDirective? w p f directive = none := by
  refine ⟨fun r e t h => ?_, fun w p f directive m body name hscope hm hbody hname hunknown =>
    MacroConstant.ofDirective?_eq_none hm hbody hname (hscope ▸ hunknown)⟩
  have hknown := Expr.exists_type_of_names h
  have hperm : e.valueNames.Perm (e.names ++ e.aside.flatMap Expr.valueNames) := by
    refine List.perm_iff_count.mpr fun name => ?_
    rw [List.count_append]
    exact Expr.count_valueNames h name
  refine ⟨hknown, hperm, ?_, fun e' houtline => ?_⟩
  · constructor
    · intro hall part hpart name hname
      refine hall name (hperm.mem_iff.mpr (List.mem_append_right _ ?_))
      exact List.mem_flatMap.mpr ⟨part, hpart, hname⟩
    · intro haside name hname
      rcases List.mem_append.mp (hperm.mem_iff.mp hname) with hname | hname
      · exact hknown name hname
      · obtain ⟨part, hpart, hname⟩ := List.mem_flatMap.mp hname
        exact haside part hpart name hname
  · rw [← Expr.type?_outline, houtline, Expr.type?_outline, h]

/-- An outside function, and no file of a plan. -/
def Surroundings.withFunction (name : String) : Surroundings where
  builtIns := .empty
  globals := [.function { name, parameters := [.unlabelled "value" .int], returns := .int }]

/-- The argument of a function is known where the whole is typed, and a macro that adds an unknown
    value to the result of the function is not made a constant. -/
theorem known_names_of_typed_call : ∃ (s : Scope) (e : Expr) (w : Surroundings) (f : FilePlan)
    (name : String),
    e.type? .empty s = some .int ∧ (∀ name ∈ e.valueNames, ∃ u, s.typeOf? name = some u) ∧
    (w.scope f).typeOf? name = none ∧
    MacroConstant.ofDirective? w .empty f "#define A f(1) + UNKNOWN" = none := by
  let s : Scope := .ofDefinitions [.value "x" (.var .int),
    .function { name := "f", parameters := [.unlabelled "value" .int], returns := .int }]
  let e : Expr := .binary (.call (.identifier "f") [⟨none, .identifier "x"⟩]) .add
    (.identifier "x")
  have htype : e.type? .empty s = some .int := by cbv
  let call : ObjcExpr := .call (.ident "f") [.literal (.int "1")]
  have hm : MacroDefinition.ofDirective? "#define A f(1) + UNKNOWN" =
      some ⟨"A", " f(1) + UNKNOWN".toList⟩ := by cbv
  have hbody : MacroDefinition.expression? ⟨"A", " f(1) + UNKNOWN".toList⟩ =
      some (.binary .add call (.ident "UNKNOWN")) := by cbv
  have hunknown : ((Surroundings.withFunction "f").scope (.forHeader "A.h")).typeOf? "UNKNOWN" =
      none := rfl
  refine ⟨s, e, .withFunction "f", .forHeader "A.h", "UNKNOWN", htype,
    ((known_names_of_typed s).1 _ e _ htype).2.2.1.mpr ?_, hunknown,
    (known_names_of_typed _).2 _ _ _ _ _ _ _ rfl hm hbody (List.mem_singleton_self _) hunknown⟩
  intro part hpart name hname
  obtain rfl : part = .identifier "x" := List.mem_singleton.mp hpart
  obtain rfl : name = "x" := List.mem_singleton.mp hname
  exact ⟨.int, rfl⟩

/-- The argument of a function is unknown, and the call is made a constant all the same. -/
theorem exists_unknown_name_typed : ∃ w p f directive c name,
    MacroConstant.ofDirective? w p f directive = some c ∧ w.type? p f c.value = some c.type ∧
    name ∈ c.value.valueNames ∧ (w.scope f).typeOf? name = none := by
  refine ⟨.withFunction "f", .empty, .forHeader "A.h", "#define A f(UNKNOWN)",
    ⟨"A", .int, .call (.identifier "f") [⟨none, .identifier "UNKNOWN"⟩]⟩, "UNKNOWN",
    by cbv, by cbv, List.mem_singleton_self _, by cbv⟩

end HeaderBridge
