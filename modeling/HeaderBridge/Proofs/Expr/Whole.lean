/-
  Nothing but comments and preprocessor lines is left out of an expression. The tokens of a source
  that is read as an expression spell this expression, all of them and in their order, with some
  double brackets taken apart, if the source has no preprocessor line. Such a line is dropped in
  front of the grammar, which knows no token of this kind, so a source with one is accepted although
  a token of it is read by nothing.
-/
import HeaderBridge.Proofs.Expr.Exact
import Mathlib

namespace HeaderBridge

namespace Grammar

/-! ## The grammar knows no preprocessor lines -/

/-- None of the tokens is a preprocessor line. -/
def NoDirective (ts : List Token) : Prop := ∀ t ∈ ts, t.kind ≠ .directive

namespace NoDirective

variable {t : Token} {ts us : List Token} {kind : TokenKind}

theorem nil : NoDirective [] := List.forall_mem_nil _

theorem cons (hk : t.kind = kind) (h : kind ≠ .directive) (hts : NoDirective ts) :
    NoDirective (t :: ts) :=
  List.forall_mem_cons.mpr ⟨hk ▸ h, hts⟩

theorem one (hk : t.kind = kind) (h : kind ≠ .directive) : NoDirective [t] := cons hk h nil

theorem append (hts : NoDirective ts) (hus : NoDirective us) : NoDirective (ts ++ us) :=
  List.forall_mem_append.mpr ⟨hts, hus⟩

theorem of_forall (hk : ∀ t ∈ ts, t.kind = kind) (h : kind ≠ .directive) : NoDirective ts :=
  fun t ht => hk t ht ▸ h

theorem of_commas {pieces : List (List Token)} (h : ∀ piece ∈ pieces, NoDirective piece)
    (hc : Commas pieces ts) : NoDirective ts :=
  hc.closed nil append (fun hk => cons hk (by decide)) h

end NoDirective

theorem NoDirective.of_ofTypes {ts : List Token} (h : OfTypes ts) : NoDirective ts :=
  fun t ht hk => absurd (hk ▸ h t ht) (by decide)

theorem ArgumentSpelling.noDirective {ts : List Token} {type : ObjcType}
    (h : ArgumentSpelling ts type) : NoDirective ts := by
  obtain ⟨a, rfl, _, hled, hspelt⟩ := h
  exact .of_ofTypes (Argument.ofTypes hled hspelt.ofTypes)

theorem Mark.WellFormed.noDirective {mark : Mark} (h : mark.WellFormed) :
    NoDirective mark.tokens := by
  cases mark with
  | keyword name colon => exact .cons h.1 (by decide) (.one h.2 (by decide))
  | comma token =>
    have hk : token.kind = .comma := h
    exact .one hk (by decide)

/-- No operator is a preprocessor line. -/
theorem operators_ne_directive {rung : Rung} {kind : TokenKind} {op : ObjcBinary}
    (h : (kind, op) ∈ rung.operators) : kind ≠ .directive := by
  have hall : ∀ p ∈ rung.operators, p.1 ≠ .directive := by
    cases rung <;> decide
  exact hall _ h

/-- No token of a spelt expression is a preprocessor line. -/
theorem Spells.noDirective {rung : Rung} {ts : List Token} {e : ObjcExpr}
    (h : Spells rung ts e) : NoDirective ts := by
  induction h with
  | climb _ ih => exact ih
  | assign _ hmem _ ihl ihr =>
    have hall : ∀ p ∈ assignments, p.1 ≠ .directive := by decide
    exact ihl.append (.cons rfl (hall _ hmem) ihr)
  | ternary _ hq _ hc _ ihc ihy ihn =>
    exact ihc.append (.cons hq (by decide) (ihy.append (.cons hc (by decide) ihn)))
  | binary _ hmem _ ihl ihr => exact ihl.append (.cons rfl (operators_ne_directive hmem) ihr)
  | unary hmem _ ih =>
    have hall : ∀ p ∈ signs, p.1 ≠ .directive := by decide
    exact .cons rfl (hall _ hmem) ih
  | cast ho hspelt hc _ ih =>
    have hparens := NoDirective.cons ho (by decide)
      (hspelt.noDirective.append (.one hc (by decide)))
    exact hparens.append ih
  | sizeOfValue hk _ _ ih => exact .cons hk (by decide) ih
  | sizeOfType hk _ ho hspelt hc =>
    exact .cons hk (by decide) (.cons ho (by decide)
      (hspelt.noDirective.append (.one hc (by decide))))
  | paren ho _ hc ih => exact .cons ho (by decide) (ih.append (.one hc (by decide)))
  | member _ hmem hname ih =>
    have hall : ∀ p ∈ accesses, p.1 ≠ .directive := by decide
    exact ih.append (.cons rfl (hall _ hmem) (.one hname (by decide)))
  | call _ ho _ hcommas hc ihe iha =>
    have hinner : NoDirective _ := .of_commas (fun piece hpiece => by
      obtain ⟨a, ha, rfl⟩ := List.mem_map.mp hpiece
      exact iha a ha) hcommas
    exact ihe.append (.cons ho (by decide) (hinner.append (.one hc (by decide))))
  | subscript _ ho _ hc ihe ihi =>
    exact ihe.append (.cons ho (by decide) (ihi.append (.one hc (by decide))))
  | plainMessage ho _ hname hc ih =>
    exact .cons ho (by decide)
      (ih.append (.cons hname (by decide) (.one hc (by decide))))
  | message ho _ hname hcolon _ hmarks _ hc ihe ihv ihp =>
    have hpieces : NoDirective _ := List.forall_mem_flatMap.mpr fun p hp =>
      (hmarks p hp).noDirective.append (ihp p hp)
    exact .cons ho (by decide) (ihe.append (.cons hname (by decide)
      (.cons hcolon (by decide) ((ihv.append hpieces).append (.one hc (by decide))))))
  | int hk => exact .one hk (by decide)
  | float hk => exact .one hk (by decide)
  | char hk => exact .one hk (by decide)
  | strings _ hk => exact .of_forall hk (by decide)
  | word hk _ => exact .one hk (by decide)
  | name hk _ _ => exact .one hk (by decide)

end Grammar

/-! ## Sources -/

/-- The tokens of a source that say something: all but comments and the end. -/
def meaningful (source : String) : List Token :=
  (tokenize source).filter fun t => t.kind ≠ .comment ∧ t.kind ≠ .endOfFile

/-- A source that is read is spelt by its tokens without preprocessor lines, and by all of its
    tokens exactly if there is no such line. -/
theorem read_whole_iff_no_directive {source : String} {e : ObjcExpr}
    (h : ObjcExpr.read source = .ok (.ok e)) :
    (∃ ts, Halved (significant (tokenize source)) ts ∧ Grammar.Spells .assignment ts e) ∧
    ((∃ ts, Halved (meaningful source) ts ∧ Grammar.Spells .assignment ts e) ↔
      ∀ t ∈ tokenize source, t.kind ≠ .directive) := by
  have hspells := exists_spells_of_read h
  refine ⟨hspells, fun ⟨ts, hrow, hts⟩ t ht hk => ?_, fun hno => ?_⟩
  · have hmem : t ∈ meaningful source := by
      refine List.mem_filter.mpr ⟨ht, ?_⟩
      rw [hk]
      decide
    exact hts.noDirective t ((hrow.mem_iff_of_kind hk (by decide)).mpr hmem) hk
  · rw [meaningful, ← significant_eq_of_noDirective hno]
    exact hspells

theorem tokenize_cast : tokenize "(int)a/* */" = [⟨.leftParen, "(", ⟨0, 1, by decide⟩⟩,
    ⟨.identifier, "int", ⟨1, 4, by decide⟩⟩, ⟨.rightParen, ")", ⟨4, 5, by decide⟩⟩,
    ⟨.identifier, "a", ⟨5, 6, by decide⟩⟩, ⟨.comment, "/* */", ⟨6, 11, by decide⟩⟩,
    ⟨.endOfFile, "", Span.point 11⟩] := by
  cbv

/-- A cast with a comment behind it: all but the comment spells it. -/
theorem read_whole_iff_no_directive_cast :
    ObjcExpr.read "(int)a/* */" = .ok (.ok (.cast (.named "int") (.ident "a"))) ∧
    ∃ ts, Halved (meaningful "(int)a/* */") ts ∧
      Grammar.Spells .assignment ts (.cast (.named "int") (.ident "a")) := by
  have hread : ObjcExpr.read "(int)a/* */" =
      .ok (.ok (.cast (.named "int") (.ident "a"))) := by
    unfold ObjcExpr.read
    rw [tokenize_cast]
    rfl
  refine ⟨hread, (read_whole_iff_no_directive hread).2.mpr ?_⟩
  rw [tokenize_cast]
  decide

/-- A preprocessor line behind an expression is read by nothing, and the expression is accepted. -/
theorem exists_directive_unread :
    ∃ source e, ObjcExpr.read source = .ok (.ok e) ∧
      ¬ ∃ ts, Halved (meaningful source) ts ∧ Grammar.Spells .assignment ts e := by
  refine ⟨"a #x", .ident "a", by cbv, fun ⟨ts, hrow, hts⟩ => ?_⟩
  have hmem : (⟨.directive, "#x", ⟨2, 4, by decide⟩⟩ : Token) ∈ meaningful "a #x" := by
    decide +kernel
  exact hts.noDirective _ ((hrow.mem_iff_of_kind rfl (by decide)).mpr hmem) rfl

end HeaderBridge
