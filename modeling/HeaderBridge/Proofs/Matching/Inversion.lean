/-
  Flattening and spelling out undo each other. A link put outside an expression is the last link of
  its chain (`ofExpr_link`), and an induction on links carries this to whole chains: an expression
  is what its chain spells out (`toExpr_ofExpr`), and a chain is found again from what it spells
  out, with the links that its own base ends in set free in front (`ofExpr_toExpr`). So chains
  whose base ends in no link stand for the expressions one to one (`ofExpr_bijOn`).
-/
import HeaderBridge.Proofs.Matching.Chains
import Mathlib.Data.Set.Function

namespace HeaderBridge

/-! ## Expressions that end in links -/

namespace Expr

@[simp] theorem unlink?_link (e : Expr) (link : Link) :
    (e.link link).unlink? = some (e, link) := by
  cases link with
  | member name => rfl
  | call arguments => rfl
  | subscript index => rfl

theorem link_of_unlink? {e inner : Expr} {link : Link} (h : e.unlink? = some (inner, link)) :
    inner.link link = e := by
  cases e with
  | member base name =>
    cases h
    rfl
  | call callee arguments =>
    cases h
    rfl
  | subscript base index =>
    cases h
    rfl
  | _ => nomatch h

theorem size_lt_link (e : Expr) (link : Link) : e.size < (e.link link).size := by
  cases link with
  | member name => simp [Expr.link, size]
  | call arguments => simp +arith [Expr.link, size]
  | subscript index => simp +arith [Expr.link, size]

/-- What holds of every expression that ends in no link, and is left true by one more link, holds of
    every expression. -/
theorem induction_on_links {P : Expr → Prop} (base : ∀ e : Expr, e.isLinked = false → P e)
    (link : ∀ e : Expr, ∀ l, P e → P (e.link l)) (e : Expr) : P e := by
  match h : e.unlink? with
  | none => exact base e (by rw [isLinked, h]; rfl)
  | some (inner, l) =>
    rw [← link_of_unlink? h]
    exact link inner l (induction_on_links base link inner)
termination_by e.size
decreasing_by
  rw [← link_of_unlink? h]
  exact size_lt_link inner l

end Expr

/-! ## Both ways -/

namespace Chain

theorem ofExpr_of_isLinked_eq_false {e : Expr} (h : e.isLinked = false) : ofExpr e = ⟨e, []⟩ :=
  ofExpr_of_unlink?_eq_none (by simpa [Expr.isLinked] using h)

/-- One more link outside is one more link at the end. -/
@[simp] theorem ofExpr_link (e : Expr) (link : Link) :
    ofExpr (e.link link) = ⟨(ofExpr e).base, (ofExpr e).links ++ [link]⟩ :=
  ofExpr_of_unlink? (Expr.unlink?_link e link)

@[simp] theorem toExpr_nil (base : Expr) : toExpr ⟨base, []⟩ = base := rfl

@[simp] theorem toExpr_cons (base : Expr) (link : Link) (links : List Link) :
    toExpr ⟨base, link :: links⟩ = toExpr ⟨base.link link, links⟩ := rfl

@[simp] theorem toExpr_concat (base : Expr) (links : List Link) (link : Link) :
    toExpr ⟨base, links ++ [link]⟩ = (toExpr ⟨base, links⟩).link link :=
  List.foldl_concat ..

/-- The base of a flattened expression ends in no link. -/
theorem isLinked_base_ofExpr (e : Expr) : (ofExpr e).base.isLinked = false := by
  induction e using Expr.induction_on_links with
  | base e h => rwa [ofExpr_of_isLinked_eq_false h]
  | link e l ih => rwa [ofExpr_link]

theorem toExpr_ofExpr (e : Expr) : (ofExpr e).toExpr = e := by
  induction e using Expr.induction_on_links with
  | base e h => rw [ofExpr_of_isLinked_eq_false h, toExpr_nil]
  | link e l ih => rw [ofExpr_link, toExpr_concat, ih]

/-- The links of a chain come behind those that its base ends in. -/
theorem ofExpr_toExpr (base : Expr) (links : List Link) :
    ofExpr (toExpr ⟨base, links⟩) = ⟨(ofExpr base).base, (ofExpr base).links ++ links⟩ := by
  -- The first link goes to the base, so the induction is over any base.
  induction links generalizing base with
  | nil => rw [toExpr_nil, List.append_nil]
  | cons link links ih => rw [toExpr_cons, ih, ofExpr_link, List.append_assoc, List.singleton_append]

/-- A chain is found again just if its base ends in no link. -/
theorem ofExpr_toExpr_eq_iff (c : Chain) : ofExpr c.toExpr = c ↔ c.base.isLinked = false := by
  constructor
  · intro h
    rw [← h]
    exact isLinked_base_ofExpr c.toExpr
  · intro h
    obtain ⟨base, links⟩ := c
    rw [ofExpr_toExpr, ofExpr_of_isLinked_eq_false h, List.nil_append]

/-- To flatten an expression is to take it apart, and nothing is lost: the base ends in no link and
    the chain spells out the expression. A chain is flattened from what it spells out just if its
    base ends in no link; with any base the links that the base ends in come first, in front of
    those of the chain. So the expressions and the chains whose base ends in no link stand for one
    another, one to one. -/
theorem ofExpr_bijOn :
    (∀ e, (ofExpr e).base.isLinked = false ∧ (ofExpr e).toExpr = e) ∧
    (∀ c : Chain, (ofExpr c.toExpr = c ↔ c.base.isLinked = false) ∧
      ofExpr c.toExpr = ⟨(ofExpr c.base).base, (ofExpr c.base).links ++ c.links⟩) ∧
    Set.BijOn ofExpr Set.univ {c | c.base.isLinked = false} := by
  refine ⟨fun e => ⟨isLinked_base_ofExpr e, toExpr_ofExpr e⟩,
    fun c => ⟨ofExpr_toExpr_eq_iff c, ofExpr_toExpr c.base c.links⟩, ?_, ?_, ?_⟩
  · exact fun e _ => isLinked_base_ofExpr e
  · exact (Function.LeftInverse.injective toExpr_ofExpr).injOn
  · exact fun c hc => ⟨c.toExpr, Set.mem_univ _, (ofExpr_toExpr_eq_iff c).mpr hc⟩

/-- A base that ends in a link gives it up to the chain. -/
example : ofExpr (toExpr ⟨.member (.identifier "a") "b", [.call []]⟩) =
    ⟨.identifier "a", [.member "b", .call []]⟩ := rfl

end Chain

end HeaderBridge
