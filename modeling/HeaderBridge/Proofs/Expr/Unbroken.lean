/-
  Without groups no bracket is taken apart. What is derived without groups neither starts nor ends
  with a single bracket, so two of them never stand side by side in it: such a row is not the one
  of a double bracket that was taken apart.
-/
import HeaderBridge.Proofs.Expr.Complete
import Mathlib.Data.List.Chain

namespace HeaderBridge

/-- Not both tokens are single brackets. -/
def NotBothGreater (a b : Token) : Prop := a.kind ≠ .greater ∨ b.kind ≠ .greater

/-- A row in which no double bracket can have been taken apart is the row that was there. -/
theorem Halved.eq_of_isChain {ts us : List Token} (h : Halved ts us)
    (hus : us.IsChain NotBothGreater) : ts = us := by
  induction h with
  | nil => rfl
  | keep t _ ih => rw [ih (List.isChain_cons.mp hus).2]
  | halve hv _ _ =>
    rcases (List.isChain_cons_cons.mp hus).1 with h | h
    · exact absurd hv.first_kind h
    · exact absurd hv.second_kind h

/-- The row has no two single brackets side by side, and none at its ends. -/
structure Sparse (ts : List Token) : Prop where
  first : ∀ t ∈ ts.head?, t.kind ≠ .greater
  last : ∀ t ∈ ts.getLast?, t.kind ≠ .greater
  chain : ts.IsChain NotBothGreater

namespace Sparse

variable {ts us : List Token} {t : Token}

theorem nil : Sparse [] := ⟨by simp, by simp, .nil⟩

theorem one (h : t.kind ≠ .greater) : Sparse [t] :=
  ⟨by simpa using h, by simpa using h, .singleton t⟩

theorem append (hts : Sparse ts) (hus : Sparse us) : Sparse (ts ++ us) := by
  refine ⟨fun t ht => ?_, fun t ht => ?_, ?_⟩
  · rw [List.head?_append, Option.mem_def, Option.or_eq_some_iff] at ht
    exact ht.elim (hts.first t) fun h => hus.first t h.2
  · rw [List.getLast?_append, Option.mem_def, Option.or_eq_some_iff] at ht
    exact ht.elim (hus.last t) fun h => hts.last t h.2
  · exact List.isChain_append.mpr ⟨hts.chain, hus.chain, fun t ht _ _ => Or.inl (hts.last t ht)⟩

theorem cons (h : t.kind ≠ .greater) (hts : Sparse ts) : Sparse (t :: ts) := (one h).append hts

/-- Any token may stand between two parts that are not empty. -/
theorem around (t : Token) (hts : Sparse ts) (hus : Sparse us) (hne : ts ≠ []) (hne' : us ≠ []) :
    Sparse (ts ++ t :: us) := by
  obtain ⟨u, us, rfl⟩ := List.exists_cons_of_ne_nil hne'
  obtain ⟨v, ts, rfl⟩ := List.exists_cons_of_ne_nil hne
  refine ⟨fun w hw => hts.first w hw, fun w hw => hus.last w ?_, ?_⟩
  · rw [List.getLast?_append_cons, List.getLast?_cons_cons] at hw
    exact hw
  · refine List.isChain_append.mpr ⟨hts.chain, List.isChain_cons_cons.mpr ⟨?_, hus.chain⟩, ?_⟩
    · exact Or.inr (hus.first u rfl)
    · exact fun w hw _ _ => Or.inl (hts.last w hw)

theorem of_forall (h : ∀ t ∈ ts, t.kind ≠ .greater) : Sparse ts := by
  induction ts with
  | nil => exact nil
  | cons t ts ih =>
    obtain ⟨ht, hts⟩ := List.forall_mem_cons.mp h
    exact cons ht (ih hts)

theorem flatMap {α : Type} {f : α → List Token} {as : List α} (h : ∀ a ∈ as, Sparse (f a)) :
    Sparse (as.flatMap f) := by
  induction as with
  | nil => exact nil
  | cons a as ih =>
    obtain ⟨ha, has⟩ := List.forall_mem_cons.mp h
    exact ha.append (ih has)

theorem of_commas {pieces : List (List Token)} (h : ∀ piece ∈ pieces, Sparse piece)
    (hc : Commas pieces ts) : Sparse ts :=
  hc.closed nil append (fun hk => cons (by rw [hk]; decide)) h

end Sparse

namespace Grammar

variable {rung : Rung} {ts : List Token} {e : ObjcExpr}

theorem Mark.WellFormed.sparse {mark : Mark} (h : mark.WellFormed) : Sparse mark.tokens := by
  cases mark with
  | keyword name colon => exact .cons (by rw [h.1]; decide) (.one (by rw [h.2]; decide))
  | comma token =>
    have hk : token.kind = .comma := h
    exact .one (by rw [hk]; decide)

theorem Derives.ne_nil (h : Derives rung ts e) : ts ≠ [] := by
  obtain ⟨t, rest, rfl, _⟩ := h.starts
  exact List.cons_ne_nil t rest

/-- What is derived without groups is sparse. -/
theorem Derives.sparse (h : Derives rung ts e) : Sparse ts := by
  have hof : ∀ {t : Token} {kind : TokenKind}, t.kind = kind → kind ≠ .greater →
      t.kind ≠ .greater := by
    rintro t _ rfl h
    exact h
  induction h with
  | climb _ ih => exact ih
  | assign hl _ hr ihl ihr => exact ihl.around _ ihr hl.ne_nil hr.ne_nil
  | ternary hc _ hy hcolon hn ihc ihy ihn =>
    exact ihc.around _ (ihy.append (.cons (hof hcolon (by decide)) ihn)) hc.ne_nil (by simp)
  | binary hl _ hr ihl ihr => exact ihl.around _ ihr hl.ne_nil hr.ne_nil
  | @unary ts e t op hmem _ ih =>
    refine .cons (fun hk => ?_) ih
    rw [hk] at hmem
    revert hmem
    cases op <;> decide
  | @member ts e mark name arrow _ hmem hname ih =>
    refine ih.append (.cons (fun hk => ?_) (.one (hof hname (by decide))))
    rw [hk] at hmem
    revert hmem
    cases arrow <;> decide
  | call _ ho _ hcommas hc ihe iha =>
    have hinner : Sparse _ := .of_commas (fun piece hpiece => by
      obtain ⟨a, ha, rfl⟩ := List.mem_map.mp hpiece
      exact iha a ha) hcommas
    exact ihe.append (.cons (hof ho (by decide)) (hinner.append (.one (hof hc (by decide)))))
  | subscript _ ho _ hc ihe ihi =>
    exact ihe.append (.cons (hof ho (by decide)) (ihi.append (.one (hof hc (by decide)))))
  | plainMessage ho _ hname hc ih =>
    exact .cons (hof ho (by decide))
      (ih.append (.cons (hof hname (by decide)) (.one (hof hc (by decide)))))
  | message ho _ hname hcolon _ hmarks _ hc ihe ihv ihp =>
    have hpieces := Sparse.flatMap fun p hp => (hmarks p hp).sparse.append (ihp p hp)
    exact .cons (hof ho (by decide)) (ihe.append (.cons (hof hname (by decide))
      (.cons (hof hcolon (by decide)) ((ihv.append hpieces).append (.one (hof hc (by decide)))))))
  | int hk => exact .one (hof hk (by decide))
  | float hk => exact .one (hof hk (by decide))
  | char hk => exact .one (hof hk (by decide))
  | strings _ hk => exact .of_forall fun t ht => hof (hk t ht) (by decide)
  | word hk _ => exact .one (hof hk (by decide))
  | name hk _ _ => exact .one (hof hk (by decide))

/-- A row that is derived without groups is the one that was there. -/
theorem Derives.of_halved {us : List Token} (h : Derives rung us e) (hrow : Halved ts us) :
    Derives rung ts e := by
  rw [hrow.eq_of_isChain h.sparse.chain]
  exact h

end Grammar

end HeaderBridge
