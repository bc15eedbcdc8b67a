/-
  The meaning of a pattern is put together as the pattern is. `Means` goes through all that a
  pattern is built with, the rules, the ways to keep to several of them, and the forms of
  expressions and chains, and says of each what it finds at a value, in terms of the value and of
  what its parts find. A match finds just that (`captures_of_means`). The induction is over how the
  pattern was built. It goes by what a pattern finds (`outcome`), for which each of the means that
  patterns are made of has one equation.
-/
import HeaderBridge.Proofs.Matching.Searching

namespace HeaderBridge

namespace PatternOver

/-- What is bound under names, in order. -/
abbrev Bindings : Type := List (String × Captured)

/-- What a pattern is to find at a value: all that it binds there, if it matches. -/
abbrev Meaning (s : Subject) : Type := s.Value → Option Bindings

/-- What is found of several parts, one after the other. Nothing is, unless all are found. -/
def inTurn : List (Option Bindings) → Option Bindings
  | [] => some []
  | none :: _ => none
  | some bs :: rest => (inTurn rest).map (bs ++ ·)

theorem inTurn_singleton (found : Option Bindings) : inTurn [found] = found := by
  cases found <;> simp [inTurn]

theorem inTurn_none (found : Option Bindings) : inTurn [found, none] = none := by
  cases found <;> rfl

theorem inTurn_nil (found : Option Bindings) : inTurn [found, some []] = found := by
  cases found <;> simp [inTurn]

/-- What is found of several parts in turn counts like what is found of one. -/
theorem inTurn_inTurn (found : Option Bindings) (rest : List (Option Bindings)) :
    inTurn [found, inTurn rest] = inTurn (found :: rest) := by
  cases found with
  | none => rfl
  | some bs => exact congrArg (Option.map (bs ++ ·)) (inTurn_singleton (inTurn rest))

/-- What a value with a property is to be found with: no bindings. -/
def foundIf (holds : Bool) : Option Bindings := if holds then some [] else none

/-- What the patterns mean that are built with the rules and forms of this library. -/
inductive Means : {s : Subject} → Pattern s → Meaning s → Prop where
  -- Rules
  | any {s : Subject} : Means (.any : Pattern s) fun _ => some []
  | equals {s : Subject} [BEq s.Value] (a : s.Value) : Means (.equals a) fun x => foundIf (x == a)
  | closure {s : Subject} (property : s.Value → Bool) :
      Means (.test property) fun x => foundIf (property x)
  | not {s : Subject} {p : Pattern s} {m : Meaning s} (h : Means p m) :
      Means (.not p) fun x => foundIf (m x).isNone
  | anyOf {s : Subject} {rules : List (Pattern s × Meaning s)} (h : ∀ r ∈ rules, Means r.1 r.2) :
      Means (.anyOf (rules.map (·.1))) fun x => rules.findSome? (·.2 x)
  | matcher {s : Subject} {p : Pattern s} {m : Meaning s} (h : Means p m) : Means (.apart p) m
  -- Several rules
  | also {s : Subject} {p q : Pattern s} {m n : Meaning s} (hp : Means p m) (hq : Means q n) :
      Means (.both p q) fun x => inTurn [m x, n x]
  | allOf {s : Subject} {rules : List (Pattern s × Meaning s)} (h : ∀ r ∈ rules, Means r.1 r.2) :
      Means (.allOf (rules.map (·.1))) fun x => inTurn (rules.map (·.2 x))
  | bind {s : Subject} (name : String) (what : s.Value → Captured) :
      Means (.bind name what) fun x => some [(name, what x)]
  | field {s t : Subject} (part : s.Value → t.Value) {p : Pattern t} {m : Meaning t}
      (h : Means p m) : Means (.view t (fun x => some (part x)) p) fun x => m (part x)
  | narrow {s t : Subject} (part : s.Value → Option t.Value) {p : Pattern t} {m : Meaning t}
      (h : Means p m) : Means (.view t part p) fun x => (part x).bind m
  -- Names and operators
  | ident {name : Pattern .name} {m : Meaning .name} (h : Means name m) :
      Means (.ident name) fun
        | .identifier name => m name
        | _ => none
  | binary {lhs rhs : Pattern .expr} {op : Pattern .op} {l r : Meaning .expr} {o : Meaning .op}
      (hl : Means lhs l) (ho : Means op o) (hr : Means rhs r) :
      Means (.binary lhs op rhs) fun
        | .binary lhs op rhs => inTurn [l lhs, o op, r rhs]
        | _ => none
  | assignment {lhs rhs : Pattern .expr} {op : Pattern .op} {l r : Meaning .expr}
      {o : Meaning .op} (hl : Means lhs l) (ho : Means op o) (hr : Means rhs r) :
      Means (.assignment lhs op rhs) fun
        | .assignment lhs op rhs => inTurn [l lhs, o op, r rhs]
        | _ => none
  | unary {op : Pattern .op} {operand : Pattern .expr} {o : Meaning .op} {m : Meaning .expr}
      (ho : Means op o) (hm : Means operand m) :
      Means (.unary op operand) fun
        | .unary op operand => inTurn [o op, m operand]
        | _ => none
  -- Nil
  | nil :
      Means .nil fun
        | .constant .nil => some []
        | _ => none
  | nilCheck (value : Expr) :
      Means (.nilCheck value) fun e => foundIf
        ([.binary value .unequals .nil, .binary .nil .unequals value, value].any (e == ·))
  | nilCompare (value : Expr) :
      Means (.nilCompare value) fun e => foundIf
        ([.binary value .equals .nil, .binary .nil .equals value, .unary .negate value].any
          (e == ·))
  -- Links, from the outermost inwards
  | memberLink {name : Pattern .name} {m : Meaning .name} (h : Means name m) :
      Means (.memberLink name) fun
        | .member name => m name
        | _ => none
  | callLink (arguments : List (Labelled Expr)) :
      Means (.callLink arguments) fun
        | .call as => foundIf (Expr.sameArguments as arguments)
        | _ => none
  | subscriptLink {index : Pattern .expr} {m : Meaning .expr} (h : Means index m) :
      Means (.subscriptLink index) fun
        | .subscript index => m index
        | _ => none
  | dot {base : Pattern .expr} {name : Pattern .name} {b : Meaning .expr} {n : Meaning .name}
      (hb : Means base b) (hn : Means name n) :
      Means (.dot base name) fun
        | .member base name => inTurn [b base, n name]
        | _ => none
  | call {callee : Pattern .expr} {c : Meaning .expr} (hc : Means callee c)
      (arguments : List (Labelled Expr)) :
      Means (.call callee arguments) fun
        | .call callee as => inTurn [c callee, foundIf (Expr.sameArguments as arguments)]
        | _ => none
  | callMethod {receiver : Pattern .expr} {name : Pattern .name} {r : Meaning .expr}
      {n : Meaning .name} (hr : Means receiver r) (hn : Means name n) :
      Means (.callMethod receiver name) fun
        | .call (.member receiver name) [] => inTurn [r receiver, n name]
        | _ => none
  | subscript {base index : Pattern .expr} {b i : Meaning .expr} (hb : Means base b)
      (hi : Means index i) :
      Means (.subscript base index) fun
        | .subscript base index => inTurn [b base, i index]
        | _ => none
  -- Chains, in the order of the text
  | chainBase {p : Pattern .expr} {m : Meaning .expr} (h : Means p m) :
      Means (.chainBase p) fun c => m c.base
  | chainLink (position : Nat) {p : Pattern .link} {m : Meaning .link} (h : Means p m) :
      Means (.chainLink position p) fun c => c.links[position]?.bind m
  | chainLength (n : Nat) : Means (.chainLength n) fun c => foundIf (c.links.length == n)
  | inverted {p : Pattern .chain} {m : Meaning .chain} (h : Means p m) :
      Means (.inverted p) fun e =>
        match e with
        | .member _ _ | .call _ _ | .subscript _ _ => m (Chain.ofExpr e)
        | _ => none
  -- Anywhere inside
  | findAny {p : Pattern .expr} {m : Meaning .expr} (h : Means p m) :
      Means (.findAny p) fun e => e.preorder.findSome? m

/-! ## What a pattern finds -/

section

variable {ι : Type} {V : ι → Type} {s : ι}

/-- What a pattern finds at a value. -/
def outcome (p : PatternOver V s) (x : V s) : Option Bindings :=
  if p.holds x then some (p.bindings x) else none

theorem outcome_apart (p : PatternOver V s) : p.apart.outcome = p.outcome := rfl

theorem outcome_both (p q : PatternOver V s) (x : V s) :
    (both p q).outcome x = inTurn [p.outcome x, q.outcome x] := by
  change (if p.holds x && q.holds x then some (p.bindings x ++ q.bindings x) else none) = _
  unfold outcome
  cases p.holds x with
  | false => rfl
  | true =>
    cases q.holds x with
    | false => rfl
    | true => simp [inTurn]

theorem outcome_not (p : PatternOver V s) (x : V s) :
    p.not.outcome x = foundIf (p.outcome x).isNone := by
  change (if !p.holds x then some [] else none) = _
  unfold outcome foundIf
  cases p.holds x <;> rfl

theorem outcome_view {t : ι} (part : V s → Option (V t)) (p : PatternOver V t) (x : V s) :
    (view t part p).outcome x = (part x).bind p.outcome := by
  change (if (part x).any p.holds then some ((part x).elim [] p.bindings) else none) = _
  cases part x <;> rfl

theorem outcome_first {t : ι} (parts : V s → List (V t)) (p : PatternOver V t) (x : V s) :
    (first t parts p).outcome x = (parts x).findSome? p.outcome := by
  change (if (parts x).any p.holds then
    some (((parts x).find? p.holds).elim [] p.bindings) else none) = _
  rw [show p.outcome = fun y => if p.holds y then some (p.bindings y) else none from rfl,
    findSome?_ite, ← List.isSome_find?]
  cases (parts x).find? p.holds <;> rfl

theorem outcome_anyOf (ps : List (PatternOver V s)) (x : V s) :
    (anyOf ps).outcome x = ps.findSome? (·.outcome x) := by
  unfold outcome
  rw [findSome?_ite, holds_anyOf, bindings_anyOf, ← List.isSome_find?]
  cases ps.find? (·.holds x) <;> rfl

theorem outcome_allOf (ps : List (PatternOver V s)) (x : V s) :
    (allOf ps).outcome x = inTurn (ps.map (·.outcome x)) := by
  induction ps with
  | nil => rfl
  | cons p ps ih =>
    change (both p (allOf ps)).outcome x = _
    rw [outcome_both, ih, inTurn_inTurn, List.map_cons]

end

/-! ## What was built finds what it means -/

theorem outcome_operands (part : Expr → Option (Expr × SwiftOperator × Expr))
    (lhs rhs : Pattern .expr) (op : Pattern .op) (e : Expr) :
    (operands part lhs op rhs).outcome e = (part e).bind fun (l, o, r) =>
      inTurn [lhs.outcome l, op.outcome o, rhs.outcome r] := by
  rw [operands, outcome_view]
  refine congrArg ((part e).bind ·) (funext fun (l, o, r) => ?_)
  rw [outcome_apart, outcome_both, outcome_both, inTurn_inTurn, outcome_view, outcome_view,
    outcome_view]
  rfl

theorem outcome_unary (op : Pattern .op) (operand : Pattern .expr) (e : Expr) :
    (unary op operand).outcome e =
      match e with
      | .unary o inner => inTurn [op.outcome o, operand.outcome inner]
      | _ => none := by
  rw [unary, outcome_view, outcome_apart]
  cases e with
  | unary o inner =>
    change (both _ _).outcome _ = _
    rw [outcome_both, outcome_view, outcome_view]
    rfl
  | _ => rfl

theorem outcome_linked (base : Pattern .expr) (link : Pattern .link) (e : Expr) :
    (base.linked link).outcome e = e.unlink?.bind fun (inner, last) =>
      inTurn [base.outcome inner, link.outcome last] := by
  rw [linked, outcome_view]
  refine congrArg (e.unlink?.bind ·) (funext fun (inner, last) => ?_)
  rw [outcome_apart, outcome_both, outcome_view, outcome_view]
  rfl

theorem outcome_memberLink (name : Pattern .name) :
    (memberLink name).outcome = fun
      | .member n => name.outcome n
      | _ => none := by
  funext l
  rw [memberLink, outcome_view]
  cases l <;> rfl

theorem outcome_callLink (arguments : List (Labelled Expr)) :
    (callLink arguments).outcome = fun
      | .call as => foundIf (Expr.sameArguments as arguments)
      | _ => none := by
  funext l
  rw [callLink, outcome_view]
  cases l <;> rfl

theorem outcome_subscriptLink (index : Pattern .expr) :
    (subscriptLink index).outcome = fun
      | .subscript i => index.outcome i
      | _ => none := by
  funext l
  rw [subscriptLink, outcome_view]
  cases l <;> rfl

theorem outcome_dot (base : Pattern .expr) (name : Pattern .name) (e : Expr) :
    (base.dot name).outcome e =
      match e with
      | .member inner n => inTurn [base.outcome inner, name.outcome n]
      | _ => none := by
  rw [dot, outcome_linked, outcome_memberLink]
  cases e with
  | call callee arguments => exact inTurn_none _
  | subscript inner index => exact inTurn_none _
  | _ => rfl

theorem outcome_call (callee : Pattern .expr) (arguments : List (Labelled Expr)) (e : Expr) :
    (callee.call arguments).outcome e =
      match e with
      | .call inner as => inTurn [callee.outcome inner, foundIf (Expr.sameArguments as arguments)]
      | _ => none := by
  rw [call, outcome_linked, outcome_callLink]
  cases e with
  | member inner name => exact inTurn_none _
  | subscript inner index => exact inTurn_none _
  | _ => rfl

theorem outcome_callMethod (receiver : Pattern .expr) (name : Pattern .name) (e : Expr) :
    (receiver.callMethod name).outcome e =
      match e with
      | .call (.member inner n) [] => inTurn [receiver.outcome inner, name.outcome n]
      | _ => none := by
  rw [callMethod, outcome_call]
  cases e with
  | call callee arguments =>
    cases arguments with
    | nil =>
      change inTurn [_, some []] = _
      rw [inTurn_nil, outcome_dot]
      cases callee <;> rfl
    | cons a as =>
      change inTurn [_, none] = _
      rw [inTurn_none]
      cases callee <;> rfl
  | _ => rfl

theorem outcome_subscript (base index : Pattern .expr) (e : Expr) :
    (base.subscript index).outcome e =
      match e with
      | .subscript inner i => inTurn [base.outcome inner, index.outcome i]
      | _ => none := by
  rw [subscript, outcome_linked, outcome_subscriptLink]
  cases e with
  | member inner name => exact inTurn_none _
  | call callee arguments => exact inTurn_none _
  | _ => rfl

/-- A pattern finds what it means, however it was built. -/
theorem outcome_eq_of_means {s : Subject} {p : Pattern s} {m : Meaning s} (h : Means p m) :
    p.outcome = m := by
  induction h with
  | any => rfl
  | equals a => rfl
  | closure property => rfl
  | not _ ih =>
    funext x
    rw [outcome_not, ih]
  | anyOf _ ih =>
    funext x
    rw [outcome_anyOf, List.findSome?_map, ← List.head?_filterMap, ← List.head?_filterMap]
    exact congrArg List.head? (List.filterMap_congr fun r hr => congrFun (ih r hr) x)
  | matcher _ ih => exact ih
  | also _ _ ihp ihq =>
    funext x
    rw [outcome_both, ihp, ihq]
  | allOf _ ih =>
    funext x
    rw [outcome_allOf, List.map_map]
    exact congrArg inTurn (List.map_congr_left fun r hr => congrFun (ih r hr) x)
  | bind name what => rfl
  | field part _ ih =>
    funext x
    rw [outcome_view, ih]
    rfl
  | narrow part _ ih =>
    funext x
    rw [outcome_view, ih]
  | ident _ ih =>
    funext e
    rw [ident, outcome_view, ih]
    cases e <;> rfl
  | binary _ _ _ ihl iho ihr =>
    funext e
    rw [binary, outcome_operands, ihl, iho, ihr]
    cases e <;> rfl
  | assignment _ _ _ ihl iho ihr =>
    funext e
    rw [assignment, outcome_operands, outcome_apart, ihl, iho, ihr]
    cases e <;> rfl
  | unary _ _ iho ihm =>
    funext e
    rw [outcome_unary, iho, ihm]
    rfl
  | nil =>
    funext e
    rw [nil, outcome_view]
    cases e with
    | constant c => cases c <;> rfl
    | _ => rfl
  | nilCheck value =>
    funext e
    simp only [List.any_cons, List.any_nil, Bool.or_false, ← Bool.or_assoc]
    rfl
  | nilCompare value =>
    funext e
    simp only [List.any_cons, List.any_nil, Bool.or_false, ← Bool.or_assoc]
    rfl
  | memberLink _ ih => rw [outcome_memberLink, ih]
  | callLink arguments => exact outcome_callLink arguments
  | subscriptLink _ ih => rw [outcome_subscriptLink, ih]
  | dot _ _ ihb ihn =>
    funext e
    rw [outcome_dot, ihb, ihn]
    rfl
  | call _ arguments ihc =>
    funext e
    rw [outcome_call, ihc]
    rfl
  | callMethod _ _ ihr ihn =>
    funext e
    rw [outcome_callMethod, ihr, ihn]
    rfl
  | subscript _ _ ihb ihi =>
    funext e
    rw [outcome_subscript, ihb, ihi]
    rfl
  | chainBase _ ih =>
    funext c
    rw [chainBase, outcome_view, ih]
    rfl
  | chainLink position _ ih =>
    funext c
    rw [chainLink, outcome_view, ih]
  | chainLength n => rfl
  | inverted _ ih =>
    funext e
    rw [inverted, outcome_view, ih]
    cases e <;> rfl
  | findAny _ ih =>
    funext e
    rw [findAny, outcome_first, ih, Expr.sequence_eq_preorder]

/-- A pattern that was built of rules and forms matches a value just if something is found there
    that it means. It records what is found, each name standing for what was bound under it last,
    and nothing else. -/
theorem captures_of_means {s : Subject} {p : Pattern s} {m : Meaning s} (h : Means p m)
    (x : s.Value) :
    (p.captures? x).isSome = (m x).isSome ∧
    (∀ c bs, p.captures? x = some c → m x = some bs → c.names.Nodup ∧
      ∀ name, c.get? name = (bs.filter (·.1 == name)).getLast?.map (·.2)) ∧
    p.isMatch x = (p.captures? x).isSome := by
  have hfound : p.captures? x = (m x).map .ofBindings := by
    rw [← outcome_eq_of_means h, captures?_eq]
    unfold outcome
    cases p.holds x <;> rfl
  refine ⟨by rw [hfound, Option.isSome_map], fun c bs hc hbs => ?_, (isSome_found? _).symm⟩
  rw [hfound, hbs, Option.map_some, Option.some.injEq] at hc
  subst hc
  exact ⟨Captures.nodup_names_ofBindings bs, Captures.get?_ofBindings bs⟩

/-- A comparison with something that is not nil, of nil with a side that is bound whole, or of a
    name. -/
def comparison : Pattern .expr :=
  .binary
    (.anyOf [.both (.bind "side" .expr) (.ident (.equals "none")), .ident (.bind "name" .string)])
    (.equals .equals) (.not .nil)

/-- Of the sides of a comparison, and of all expressions inside a call, the first counts that
    matches. What another one bound before it failed is lost. -/
theorem captures_of_means_comparison :
    ∃ c, (findAny comparison).captures? (.call (.identifier "f")
      [⟨none, .binary .nil .equals (.identifier "a")⟩,
        ⟨none, .binary (.identifier "b") .equals (.identifier "c")⟩]) = some c ∧
      c.get? "name" = some (.string "b") ∧ c.get? "side" = none := by
  have hside := Means.also (@Means.bind .expr "side" .expr) (.ident (@Means.equals .name _ "none"))
  have hname := Means.ident (@Means.bind .name "name" .string)
  have hsides := @Means.anyOf .expr [(_, _), (_, _)]
    (List.forall_mem_cons.mpr ⟨hside, List.forall_mem_singleton.mpr hname⟩)
  have hmeans := Means.findAny (.binary hsides (@Means.equals .op _ .equals) (.not .nil))
  obtain ⟨hsome, hbound, -⟩ := captures_of_means hmeans (.call (.identifier "f")
    [⟨none, .binary .nil .equals (.identifier "a")⟩,
      ⟨none, .binary (.identifier "b") .equals (.identifier "c")⟩])
  obtain ⟨c, hc⟩ := Option.isSome_iff_exists.mp (hsome.trans rfl)
  obtain ⟨-, hget⟩ := hbound c [("name", .string "b")] hc rfl
  exact ⟨c, hc, hget "name", hget "side"⟩

end PatternOver

end HeaderBridge
