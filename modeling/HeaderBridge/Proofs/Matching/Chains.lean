/-
  Patterns for chains of links. A chain is matched in two ways: from the outermost link inwards,
  one link taken off at each step (`chained`), or flattened first, with its base, its length and
  each of its links kept to a rule of their own (`flattened`). On a base that holds of nothing that
  ends in a link the two find the same (`captures?_chained_eq`). Both come down to one statement
  about the flattened chain, the rules and the links paired from the base outwards
  (`holds_chained`, `bindings_chained`); the induction is on the rules, the last of which is for
  the link that the tree has outermost.
-/
import HeaderBridge.Proofs.Matching.Meaning

namespace HeaderBridge

/-! ## Chains of one more link -/

namespace Chain

theorem ofExpr_go_append (e : Expr) (front back : List Link) :
    ofExpr.go e (front ++ back) =
      ⟨(ofExpr.go e front).base, (ofExpr.go e front).links ++ back⟩ := by
  fun_induction ofExpr.go e front with
  | case1 front base name ih => exact ih
  | case2 front callee arguments ih => exact ih
  | case3 front base index ih => exact ih
  | case4 front e hmember hcall hsubscript => rw [ofExpr.go.eq_4 _ _ hmember hcall hsubscript]

/-- What an expression ends in is the last link of its chain. -/
theorem ofExpr_of_unlink? {e inner : Expr} {link : Link} (h : e.unlink? = some (inner, link)) :
    ofExpr e = ⟨(ofExpr inner).base, (ofExpr inner).links ++ [link]⟩ := by
  unfold ofExpr
  rw [← ofExpr_go_append inner [] [link]]
  unfold Expr.unlink? at h
  split at h
  all_goals cases h <;> rfl

theorem ofExpr_of_unlink?_eq_none {e : Expr} (h : e.unlink? = none) : ofExpr e = ⟨e, []⟩ := by
  cases e with
  | member base name => nomatch h
  | call callee arguments => nomatch h
  | subscript base index => nomatch h
  | _ => rfl

end Chain

namespace PatternOver

/-! ## Rules for the links of a chain -/

/-- A rule for one link: for the name of a member, for just these arguments of a call, or for the
    index of a subscript. -/
inductive LinkRule where
  | member (name : Pattern .name)
  | call (arguments : List (Labelled Expr))
  | subscript (index : Pattern .expr)

namespace LinkRule

/-- The links that the rule is kept by. -/
def link : LinkRule → Pattern .link
  | .member name => memberLink name
  | .call arguments => callLink arguments
  | .subscript index => subscriptLink index

/-- What matches, with a link behind it that the rule is kept by. -/
def behind (base : Pattern .expr) : LinkRule → Pattern .expr
  | .member name => base.dot name
  | .call arguments => base.call arguments
  | .subscript index => base.subscript index

theorem behind_eq (base : Pattern .expr) (rule : LinkRule) :
    rule.behind base = base.linked rule.link := by
  cases rule with
  | member name => rfl
  | call arguments => rfl
  | subscript index => rfl

end LinkRule

/-- A base with a link behind it for each of the rules, the last of them outermost. -/
def chained (base : Pattern .expr) (rules : List LinkRule) : Pattern .expr :=
  rules.foldl LinkRule.behind base

/-- A chain as long as the rules are many, with a rule for its base and for the link at each
    position. -/
def flattened (base : Pattern .expr) (rules : List LinkRule) : Pattern .expr :=
  inverted (allOf (chainBase (.apart base) :: chainLength rules.length ::
    rules.mapIdx fun i rule => chainLink i (.apart rule.link)))

/-- Whether there is a link for each of the rules and each is kept by its link. -/
def KeptBy (rules : List LinkRule) (links : List Link) : Prop :=
  List.Forall₂ (fun rule link => rule.link.holds link = true) rules links

/-- What the rules bind at their links, in the order of the text. -/
def bound (rules : List LinkRule) (links : List Link) : List (String × Captured) :=
  (List.zipWith (fun (rule : LinkRule) link => rule.link.bindings link) rules links).flatten

theorem keptBy_concat_iff {rules : List LinkRule} {rule : LinkRule} {links : List Link}
    {link : Link} : KeptBy (rules ++ [rule]) (links ++ [link]) ↔
      KeptBy rules links ∧ rule.link.holds link = true := by
  unfold KeptBy
  rw [← List.forall₂_reverse_iff, List.reverse_concat, List.reverse_concat, List.forall₂_cons,
    List.forall₂_reverse_iff, and_comm]

theorem bound_concat {rules : List LinkRule} {links : List Link} (h : rules.length = links.length)
    (rule : LinkRule) (link : Link) :
    bound (rules ++ [rule]) (links ++ [link]) = bound rules links ++ rule.link.bindings link := by
  unfold bound
  rw [List.zipWith_append h, List.flatten_append]
  exact congrArg (_ ++ ·) (List.append_nil _)

/-! ## From the outermost link inwards -/

section

variable {base : Pattern .expr}

theorem chained_concat (rules : List LinkRule) (rule : LinkRule) :
    chained base (rules ++ [rule]) = (chained base rules).linked rule.link := by
  rw [← rule.behind_eq]
  exact List.foldl_concat ..

theorem holds_linked_iff {p : Pattern .expr} {q : Pattern .link} {e : Expr} :
    (p.linked q).holds e = true ↔ ∃ inner link, e.unlink? = some (inner, link) ∧
      p.holds inner = true ∧ q.holds link = true := by
  change e.unlink?.any (fun last => p.holds last.1 && q.holds last.2) = true ↔ _
  simp only [Option.any_eq_true, Bool.and_eq_true, Prod.exists]

theorem bindings_linked (p : Pattern .expr) (q : Pattern .link) {e inner : Expr} {link : Link}
    (h : e.unlink? = some (inner, link)) :
    (p.linked q).bindings e = p.bindings inner ++ q.bindings link := by
  change e.unlink?.elim [] (fun last => p.bindings last.1 ++ q.bindings last.2) = _
  rw [h]
  rfl

/-- Rules behind a base that holds of nothing that ends in a link hold of the chains whose base it
    holds of and whose links keep the rules. -/
theorem holds_chained_iff (hbase : ∀ e : Expr, e.isLinked = true → base.holds e = false)
    (rules : List LinkRule) (e : Expr) : (chained base rules).holds e = true ↔
      base.holds (Chain.ofExpr e).base = true ∧ KeptBy rules (Chain.ofExpr e).links := by
  induction rules using List.reverseRecOn generalizing e with
  | nil =>
    cases hlink : e.unlink? with
    | none => simp [chained, KeptBy, Chain.ofExpr_of_unlink?_eq_none hlink]
    | some last =>
      have he : base.holds e = false := hbase e (by rw [Expr.isLinked, hlink]; rfl)
      simp [chained, KeptBy, Chain.ofExpr_of_unlink? hlink, he]
  | append_singleton rules rule ih =>
    rw [chained_concat, holds_linked_iff]
    cases hlink : e.unlink? with
    | none =>
      simp [KeptBy, Chain.ofExpr_of_unlink?_eq_none hlink]
    | some last =>
      obtain ⟨inner, link⟩ := last
      rw [Chain.ofExpr_of_unlink? hlink, keptBy_concat_iff, ← and_assoc, ← ih inner]
      simp

/-- The base binds first, then the rules from the base outwards. -/
theorem bindings_chained (rules : List LinkRule) {e : Expr}
    (hlength : rules.length = (Chain.ofExpr e).links.length) :
    (chained base rules).bindings e =
      base.bindings (Chain.ofExpr e).base ++ bound rules (Chain.ofExpr e).links := by
  induction rules using List.reverseRecOn generalizing e with
  | nil =>
    cases hlink : e.unlink? with
    | none => simp [chained, bound, Chain.ofExpr_of_unlink?_eq_none hlink]
    | some last => simp [Chain.ofExpr_of_unlink? hlink] at hlength
  | append_singleton rules rule ih =>
    cases hlink : e.unlink? with
    | none => simp [Chain.ofExpr_of_unlink?_eq_none hlink] at hlength
    | some last =>
      obtain ⟨inner, link⟩ := last
      rw [Chain.ofExpr_of_unlink? hlink] at hlength ⊢
      have hinner : rules.length = (Chain.ofExpr inner).links.length := by
        simpa using hlength
      rw [chained_concat, bindings_linked _ _ hlink, ih hinner, bound_concat hinner,
        List.append_assoc]

end

/-! ## Flattened first -/

theorem keptBy_iff {rules : List LinkRule} {links : List Link} : KeptBy rules links ↔
    links.length = rules.length ∧
      ∀ i, ∀ h : i < rules.length, links[i]?.any rules[i].link.holds = true := by
  unfold KeptBy
  rw [List.forall₂_iff_get, eq_comm]
  refine and_congr_right fun hlength => forall_congr' fun i => forall_congr' fun hi => ?_
  have hlink : i < links.length := hlength ▸ hi
  simp [hlink]

theorem holds_inverted (p : Pattern .chain) (e : Expr) :
    (inverted p).holds e = (e.isLinked && p.holds (Chain.ofExpr e)) := by
  change (if e.isLinked then some (Chain.ofExpr e) else none).any p.holds = _
  cases e.isLinked with
  | true => rfl
  | false => rfl

theorem bindings_inverted (p : Pattern .chain) {e : Expr} (h : e.isLinked = true) :
    (inverted p).bindings e = p.bindings (Chain.ofExpr e) := by
  change (if e.isLinked then some (Chain.ofExpr e) else none).elim [] p.bindings = _
  rw [if_pos h]
  rfl

theorem holds_flattened_iff (base : Pattern .expr) (rules : List LinkRule) (e : Expr) :
    (flattened base rules).holds e = true ↔ e.isLinked = true ∧
      base.holds (Chain.ofExpr e).base = true ∧ KeptBy rules (Chain.ofExpr e).links := by
  have hlinks : (∀ p ∈ rules.mapIdx fun i rule => chainLink i (.apart rule.link),
      p.holds (Chain.ofExpr e) = true) ↔ ∀ i, ∀ h : i < rules.length,
        (Chain.ofExpr e).links[i]?.any rules[i].link.holds = true := by
    refine ⟨fun h i hi => h _ (List.mem_mapIdx.mpr ⟨i, hi, rfl⟩), fun h p hp => ?_⟩
    obtain ⟨i, hi, rfl⟩ := List.mem_mapIdx.mp hp
    exact h i hi
  have hlength : (chainLength rules.length).holds (Chain.ofExpr e) = true ↔
      (Chain.ofExpr e).links.length = rules.length := beq_iff_eq
  rw [keptBy_iff, flattened, holds_inverted, holds_allOf, List.all_cons, List.all_cons,
    Bool.and_eq_true, Bool.and_eq_true, Bool.and_eq_true, List.all_eq_true, hlinks, hlength]
  rfl

theorem bindings_flattened (base : Pattern .expr) {rules : List LinkRule} {e : Expr}
    (hlinked : e.isLinked = true) (hlength : rules.length = (Chain.ofExpr e).links.length) :
    (flattened base rules).bindings e =
      base.bindings (Chain.ofExpr e).base ++ bound rules (Chain.ofExpr e).links := by
  have hlinks : (rules.mapIdx fun i rule => chainLink i (.apart rule.link)).map
      (·.bindings (Chain.ofExpr e)) = List.zipWith
        (fun (rule : LinkRule) link => rule.link.bindings link) rules (Chain.ofExpr e).links := by
    refine List.ext_getElem (by simp [hlength]) fun i hi _ => ?_
    rw [List.length_map, List.length_mapIdx] at hi
    have hlink : (Chain.ofExpr e).links[i]? = some _ := List.getElem?_eq_getElem (hlength ▸ hi)
    rw [List.getElem_map, List.getElem_mapIdx, List.getElem_zipWith]
    change (Chain.ofExpr e).links[i]?.elim [] rules[i].link.bindings = _
    rw [hlink]
    rfl
  rw [flattened, bindings_inverted _ hlinked, bindings_allOf, List.flatMap_cons, List.flatMap_cons,
    List.flatMap_def, hlinks]
  rfl

/-! ## The two ways -/

/-- To take the links off one after the other, the outermost first, and to flatten the chain and
    keep each of its parts to a rule come to the same on every expression: the same ones match,
    and the same is recorded. The base must match nothing that ends in a link, for the first way
    would go on to match it where the second has left the chain. -/
theorem captures?_chained_eq {base : Pattern .expr}
    (hbase : ∀ e : Expr, e.isLinked = true → base.isMatch e = false) {rules : List LinkRule}
    (hrules : rules ≠ []) (e : Expr) :
    (chained base rules).captures? e = (flattened base rules).captures? e := by
  have hbase : ∀ e : Expr, e.isLinked = true → base.holds e = false :=
    fun e he => (isMatch_eq_holds base e).symm.trans (hbase e he)
  by_cases hholds : (flattened base rules).holds e = true
  · obtain ⟨hlinked, hparts⟩ := (holds_flattened_iff base rules e).mp hholds
    have hlength : rules.length = (Chain.ofExpr e).links.length := hparts.2.length_eq
    rw [captures?_eq, captures?_eq, if_pos hholds,
      if_pos ((holds_chained_iff hbase rules e).mpr hparts), bindings_chained rules hlength,
      bindings_flattened base hlinked hlength]
  · have hchained : ¬ (chained base rules).holds e = true := by
      intro h
      obtain ⟨hheld, hkept⟩ := (holds_chained_iff hbase rules e).mp h
      refine hholds ((holds_flattened_iff base rules e).mpr ⟨?_, hheld, hkept⟩)
      -- A chain that keeps a rule has a link.
      by_contra hlinked
      have hnone : e.unlink? = none := by simpa [Expr.isLinked] using hlinked
      rw [Chain.ofExpr_of_unlink?_eq_none hnone] at hkept
      exact hrules (List.forall₂_nil_right_iff.mp hkept)
    rw [captures?_eq, captures?_eq, if_neg hholds, if_neg hchained]

/-- What a link records replaces what the base recorded under the same name, in its place. -/
theorem captures?_chained_eq_replaced :
    (∀ e : Expr, e.isLinked = true → (ident (.bind "found" .string)).isMatch e = false) ∧
    [LinkRule.member (.bind "name" .string), .subscript (.bind "found" .expr)] ≠ [] ∧
    (chained (ident (.bind "found" .string))
        [.member (.bind "name" .string), .subscript (.bind "found" .expr)]).captures?
        (.subscript (.member (.identifier "a") "b") (.identifier "i")) =
      (flattened (ident (.bind "found" .string))
        [.member (.bind "name" .string), .subscript (.bind "found" .expr)]).captures?
        (.subscript (.member (.identifier "a") "b") (.identifier "i")) ∧
    (flattened (ident (.bind "found" .string))
        [.member (.bind "name" .string), .subscript (.bind "found" .expr)]).captures?
        (.subscript (.member (.identifier "a") "b") (.identifier "i")) =
      some ⟨[("found", .expr (.identifier "i")), ("name", .string "b")]⟩ := by
  have hbase : ∀ e : Expr, e.isLinked = true →
      (ident (.bind "found" .string)).isMatch e = false := by
    intro e he
    cases e with
    | identifier name => nomatch he
    | _ => rfl
  have hrules : [LinkRule.member (.bind "name" .string), .subscript (.bind "found" .expr)] ≠ [] :=
    List.cons_ne_nil _ _
  exact ⟨hbase, hrules, captures?_chained_eq hbase hrules _, rfl⟩

end PatternOver

end HeaderBridge
