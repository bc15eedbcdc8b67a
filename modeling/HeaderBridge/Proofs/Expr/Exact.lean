/-
  Reading an expression is exact on the language without groups. A source without number signs,
  which start directives, is read as an expression without groups if and only if its tokens derive
  this expression in the grammar of rungs. One direction follows the rules, the other one the
  derivations; that a derivation has a reading at all needs that reading is total.
-/
import HeaderBridge.Proofs.Expr.Complete
import HeaderBridge.Proofs.Expr.Sound
import HeaderBridge.Proofs.Expr.Unbroken
import HeaderBridge.Proofs.Totality.Reading
import Mathlib

namespace HeaderBridge

open Rule
open ReadState (kindOf)

/-! ## The tokens of a source without directives -/

/-- Where a directive is, there is a number sign. -/
theorem mem_toList_of_directive {source : String} {t : Token} (ht : t ∈ tokenize source)
    (hk : t.kind = .directive) : '#' ∈ source.toList := by
  obtain ⟨front, back, hsource, _⟩ := atPlace_of_halved (.refl _) t ht
  rcases spelt_of_mem ht with h | h
  · rw [hk] at h
    cases h
  · rw [hk] at h
    obtain ⟨rest, htext⟩ := List.head?_eq_some_iff.mp h
    rw [hsource, htext]
    exact List.mem_append_right front (List.mem_append_left back List.mem_cons_self)

/-- Without preprocessor lines only comments are dropped in front of the end. -/
theorem significant_eq_of_noDirective {tokens : List Token}
    (h : ∀ t ∈ tokens, t.kind ≠ .directive) :
    significant tokens = tokens.filter fun t => t.kind ≠ .comment ∧ t.kind ≠ .endOfFile := by
  unfold significant
  refine List.filter_congr fun t ht => ?_
  have hdirective := h t ht
  rw [Bool.eq_iff_iff]
  simp [hdirective]

theorem significant_eq {source : String} (h : '#' ∉ source.toList) :
    significant (tokenize source) =
      (tokenize source).filter fun t => t.kind ≠ .comment ∧ t.kind ≠ .endOfFile :=
  significant_eq_of_noDirective fun _ ht hk => h (mem_toList_of_directive ht hk)

namespace Grammar

variable {s : ReadState} {e : ObjcExpr}

/-! ## Whole texts -/

/-- What a whole text comes to is derived by all of it, if no part is a group. -/
theorem wholeExpression_derives (hs : ∀ t ∈ s.rest, t.kind ≠ .endOfFile) :
    Ends True wholeExpression s (fun e _ => e.GroupFree → Derives .assignment s.rest e)
      fun _ _ => True := by
  refine (wholeExpression_spells hs).mono (fun e _ h hfree => ?_) fun _ _ h => h
  obtain ⟨ts, hrow, hspells⟩ := h
  exact (hspells.derives hfree).of_halved hrow

/-- An expression that all of a text is read as is what the text comes to. -/
theorem wholeExpression_of_yields {front : List Token} (h : Yields expression e front [] s)
    (hcurrent : s.current ≠ .endOfFile) (herrors : s.errors = #[]) :
    Ends True wholeExpression s (fun b _ => b = e) fun _ _ => False := by
  unfold wholeExpression
  refine ends_bind.mpr (ends_state.mpr (ends_ite.mpr ⟨fun h => absurd h hcurrent, fun _ => ?_⟩))
  refine ends_bind.mpr (h.ends (ends_bind.mpr (ends_state.mpr ?_)))
  refine ends_ite.mpr ⟨fun h => absurd rfl h, fun _ => ?_⟩
  rw [ReadState.past_errors, herrors]
  exact ends_pure.mpr rfl

/-- What all of a text derives is what it comes to. -/
theorem wholeExpression_yields (h : Derives .assignment s.rest e) (herrors : s.errors = #[]) :
    Ends True wholeExpression s (fun b _ => b = e) fun _ _ => False := by
  obtain ⟨t, rest, hrest, _, hend⟩ := h.starts
  have hcurrent : s.current ≠ .endOfFile := by
    rw [ReadState.current_of_cons hrest]
    exact hend
  have hread : Yields expression e s.rest [] s := by
    have hcloses : Closes [] := List.mem_of_elem_eq_true rfl
    unfold expression
    exact .state (h.reaches.inner hcloses (List.append_nil _).symm)
  exact wholeExpression_of_yields hread hcurrent herrors

end Grammar

/-- What the tokens of a source come to is what the source is read as. -/
theorem read_eq_ok_iff_done {source : String} {e : ObjcExpr} :
    ObjcExpr.read source = .ok (.ok e) ↔ ∃ s',
      Grammar.wholeExpression (ReadState.start source (tokenize source) .empty none) =
        .done e s' := by
  unfold ObjcExpr.read
  cases Grammar.wholeExpression (ReadState.start source (tokenize source) .empty none) with
  | done e' s' => simp
  | failed error s' => simp
  | broken f => simp

/-- The tokens of a source spell what it is read as, with some double brackets taken apart. -/
theorem exists_spells_of_read {source : String} {e : ObjcExpr}
    (h : ObjcExpr.read source = .ok (.ok e)) :
    ∃ ts, Halved (significant (tokenize source)) ts ∧ Grammar.Spells .assignment ts e := by
  obtain ⟨s', hdone⟩ := read_eq_ok_iff_done.mp h
  exact (Grammar.wholeExpression_spells
    (s := ReadState.start source (tokenize source) .empty none)
    fun t ht => ne_endOfFile_of_significant ht).of_done hdone

/-- A source is read as what its tokens derive. -/
theorem read_of_derives {source : String} {e : ObjcExpr}
    (h : Grammar.Derives .assignment (significant (tokenize source)) e) :
    ObjcExpr.read source = .ok (.ok e) := by
  have hyields := Grammar.wholeExpression_yields
    (s := ReadState.start source (tokenize source) .empty none) h rfl
  rcases (wholeExpression_safeAt (sound_start source .empty none)).cases with
    ⟨e', s', hdone, _⟩ | ⟨error, s', hfailed, _⟩
  · obtain rfl := hyields.of_done hdone
    exact read_eq_ok_iff_done.mpr ⟨s', hdone⟩
  · exact (hyields.of_failed hfailed).elim

/-- A source without number signs is read as an expression without groups exactly if its tokens,
    but for comments, derive this expression. -/
theorem read_eq_ok_iff_derives {source : String} {e : ObjcExpr} (hsource : '#' ∉ source.toList)
    (he : e.GroupFree) :
    ObjcExpr.read source = .ok (.ok e) ↔
      Grammar.Derives .assignment
        ((tokenize source).filter fun t => t.kind ≠ .comment ∧ t.kind ≠ .endOfFile) e := by
  rw [← significant_eq hsource]
  constructor
  · intro hread
    obtain ⟨s', h⟩ := read_eq_ok_iff_done.mp hread
    have hderives := Grammar.wholeExpression_derives
      (s := ReadState.start source (tokenize source) .empty none)
      fun t ht => ne_endOfFile_of_significant ht
    exact hderives.of_done h he
  · exact read_of_derives

/-- An assignment whose value is a conditional: a sign holds a member, differences group to the
    left, and the colon of a keyword ends no branch. -/
theorem read_eq_ok_iff_derives_conditional :
    Grammar.Derives .assignment
      ((tokenize "a = -b.c ? d - e - 1 : [f g: h(), i]").filter fun t =>
        t.kind ≠ .comment ∧ t.kind ≠ .endOfFile)
      (.assign .assign (.ident "a")
        (.ternary (.unary .neg (.member (.ident "b") "c" false))
          (.binary .sub (.binary .sub (.ident "d") (.ident "e")) (.literal (.int "1")))
          (.message (.ident "f") "g:" [⟨none, .call (.ident "h") []⟩, ⟨none, .ident "i"⟩]))) := by
  refine (read_eq_ok_iff_derives (by decide) (by simp)).mp ?_
  cbv

end HeaderBridge
