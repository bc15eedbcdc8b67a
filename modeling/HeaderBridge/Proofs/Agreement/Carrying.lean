/-
  What a rule does without errors in front of an `@end`, it does in front of anything. Agreement
  says nothing where a look ahead may pass the common tokens; `CarriesAt` does, of rules that read
  the first row without an error and leave its `@end` unread. Such a rule mostly ends in a token that
  it must find, so that it cannot have come that far without one in common (`ClosesAt`).
-/
import HeaderBridge.Proofs.Agreement.Combinators

namespace HeaderBridge

open ReadState (kindOf)
open Bare (bare)

theorem Facing.ne_nil {tail ts us : List Token} (h : Facing (some tail) ts us) : ts ≠ [] := by
  obtain ⟨common, last, _, _, rfl, _⟩ := h
  simp

/-- Where the first row does not stand before its `@end`, the rows begin with tokens of one face. -/
theorem Facing.cons_of_ne {tail ts us : List Token} (h : Facing (some tail) ts us)
    (hne : kindOf ts ≠ .atEnd) : ∃ t ts' u us', ts = t :: ts' ∧ us = u :: us' ∧ t.face = u.face ∧
      Facing (some tail) ts' us' := by
  obtain hcons | ⟨hnone, _⟩ | ⟨last, hlast, rfl, _⟩ := h.cases
  · exact hcons
  · cases hnone
  · exact absurd hlast hne

/-- A kind that the tail does not begin with is met in both rows or in none. -/
theorem Alike.current_iff {tail : List Token} {s s' : ReadState} {kind : TokenKind}
    (h : Alike (some tail) s s') (htail : kindOf tail ≠ kind) (hend : kind ≠ .atEnd) :
    s.current = kind ↔ s'.current = kind := by
  obtain ⟨t, ts, u, us, hs, hs', hface, _⟩ | ⟨hnone, _⟩ | ⟨last, hlast, hs, hs'⟩ := h.facing.cases
  · rw [ReadState.current_of_cons hs, ReadState.current_of_cons hs',
      show t.kind = u.kind from congrArg Prod.fst hface]
  · cases hnone
  · have htail' := Option.some.inj hs'
    unfold ReadState.current
    rw [hs, ← htail']
    exact ⟨fun h => absurd (hlast.symm.trans h) hend.symm, fun h => absurd h htail⟩

namespace Rule

/-- The rule comes to a value without an error, and something of the row is left. -/
structure Cleanly {α : Type} (r : Rule α) (s : ReadState) (a : α) (t : ReadState) : Prop where
  done : r s = .done a t
  rest : t.rest ≠ []
  errors : t.errors.size = s.errors.size

/-- A sequence that comes to a value without an error does so in its parts. -/
theorem Cleanly.of_bind {α β : Type} {r : Rule β} {f : β → Rule α} {a : α} {s u : ReadState}
    (h : Cleanly (r >>= f) s a u) (hr : Keeping r s) (hf : ∀ b t, Keeping (f b) t) :
    ∃ b t, Cleanly r s b t ∧ Cleanly (f b) t a u := by
  obtain ⟨b, t, hrs, hfb⟩ := exists_of_bind h.done
  have hfirst := hr.of_done hrs
  have hnext := (hf b t).of_done hfb
  have hle := hfirst.errors
  have hle' := hnext.errors
  have herrors := h.errors
  exact ⟨b, t, ⟨hrs, fun hnil => h.rest (hnext.nil hnil), by omega⟩, ⟨hfb, h.rest, by omega⟩⟩

theorem done_of_withNode {α : Type} {kind : NodeKind} {r : Rule α} {a : α} {s u : ReadState}
    (hdone : Rule.withNode kind r s = .done a u) :
    ∃ t, r { s with nodes := s.nodes.begin kind } = .done a t ∧
      closeNode s.currentSpan.start s.position s.nodes.depth t = .ok u := by
  unfold Rule.withNode at hdone
  cases hr : r { s with nodes := s.nodes.begin kind } with
  | broken fault => rw [hr] at hdone; cases hdone
  | failed e t =>
    rw [hr] at hdone
    simp only [] at hdone
    cases hc : closeNode s.currentSpan.start s.position s.nodes.depth t with
    | error fault => rw [hc] at hdone; cases hdone
    | ok v => rw [hc] at hdone; cases hdone
  | done b t =>
    rw [hr] at hdone
    simp only [] at hdone
    cases hc : closeNode s.currentSpan.start s.position s.nodes.depth t with
    | error fault => rw [hc] at hdone; cases hdone
    | ok v =>
      rw [hc] at hdone
      cases hdone
      exact ⟨t, rfl, hc⟩

/-- A node is built without an error if its parts are. -/
theorem Cleanly.of_withNode {α : Type} {kind : NodeKind} {r : Rule α} {a : α} {s u : ReadState}
    (h : Cleanly (Rule.withNode kind r) s a u) :
    ∃ t, Cleanly r { s with nodes := s.nodes.begin kind } a t ∧
      closeNode s.currentSpan.start s.position s.nodes.depth t = .ok u := by
  obtain ⟨hdone, hrest, herrors⟩ := h
  obtain ⟨t, hr, hc⟩ := done_of_withNode hdone
  obtain ⟨_, _, _, _, _, _, _, rfl⟩ := closeNode_cases hc
  exact ⟨t, ⟨hr, hrest, herrors⟩, hc⟩

/-- A rule that notes an error is not read without one. -/
theorem not_cleanly_report {α : Type} {e : SyntaxError} {r : Rule α} {s t : ReadState} {a : α}
    (hnew : e.reported = false) (hkeeps : Keeping r (s.report e)) :
    ¬ Cleanly (Rule.report e >>= fun _ => r) s a t := by
  intro hclean
  have hdone : r (s.report e) = .done a t := hclean.done
  have hle := (hkeeps.of_done hdone).errors
  rw [hclean.errors, errors_report hnew] at hle
  omega

variable {α β : Type} [Bare α] [Bare β] {tail : List Token} {s s' : ReadState}

/-- What the first rule does without errors the second one does, too, unless it breaks. -/
structure CarriesAt (tail : List Token) (r r' : Rule α) (s s' : ReadState) : Prop where
  keeps : Keeping r s
  carries : Alike (some tail) s s' → ∀ a t, Cleanly r s a t → (∃ fault, r' s' = .broken fault) ∨
    ∃ a' t', r' s' = .done a' t' ∧ bare a = bare a' ∧ Alike (some tail) t t' ∧ SameGain s t s' t'

/-- The same, where the rule cannot do without a token in common. -/
structure ClosesAt (tail : List Token) (r r' : Rule α) (s s' : ReadState) : Prop
    extends CarriesAt tail r r' s s' where
  starves : RanOut (some tail) s.rest → ∀ a t, ¬ Cleanly r s a t

namespace CarriesAt

/-! ## Sequences and choices -/

theorem bind {r r' : Rule β} {f f' : β → Rule α} (h : CarriesAt tail r r' s s')
    (hf : ∀ b b' t t', bare b = bare b' → CarriesAt tail (f b) (f' b') t t') :
    CarriesAt tail (r >>= f) (r' >>= f') s s' := by
  have hkeeps : ∀ b t, Keeping (f b) t := fun b t => (hf b b t t rfl).keeps
  refine ⟨h.keeps.bind hkeeps, fun halike a u hclean => ?_⟩
  obtain ⟨b, t, hfirst, hsecond⟩ := hclean.of_bind h.keeps hkeeps
  rcases h.carries halike b t hfirst with ⟨fault, hr'⟩ | ⟨b', t', hr', hb, halike', hgain⟩
  · exact Or.inl ⟨fault, bind_of_broken hr'⟩
  · rw [bind_of_done hr']
    refine ((hf b b' t t' hb).carries halike' a u hsecond).imp_right ?_
    rintro ⟨a', u', hf', ha, halike'', hgain'⟩
    exact ⟨a', u', hf', ha, halike'', hgain.trans hgain'⟩

theorem state {f f' : ReadState → Rule α} (h : CarriesAt tail (f s) (f' s') s s') :
    CarriesAt tail (Rule.state >>= f) (Rule.state >>= f') s s' :=
  ⟨h.keeps, fun halike a t hclean => h.carries halike a t ⟨hclean.done, hclean.rest, hclean.errors⟩⟩

theorem ite {c c' : Prop} [Decidable c] [Decidable c'] {r₁ r₂ r₁' r₂' : Rule α}
    (hc : Alike (some tail) s s' → (c ↔ c')) (h : c → CarriesAt tail r₁ r₁' s s')
    (h' : ¬ c → CarriesAt tail r₂ r₂' s s') :
    CarriesAt tail (if c then r₁ else r₂) (if c' then r₁' else r₂') s s' := by
  refine ⟨ends_ite.mpr ⟨fun hc => (h hc).keeps, fun hc => (h' hc).keeps⟩, fun halike => ?_⟩
  have hiff := hc halike
  by_cases hcase : c
  · rw [if_pos hcase, if_pos (hiff.mp hcase)]
    exact (h hcase).carries halike
  · rw [if_neg hcase, if_neg fun h => hcase (hiff.mpr h)]
    exact (h' hcase).carries halike

theorem pure {a a' : α} (h : bare a = bare a') (s s' : ReadState) :
    CarriesAt tail (pure a) (pure a') s s' := by
  refine ⟨.refl s, fun halike b t hclean => ?_⟩
  cases hclean.done
  exact Or.inr ⟨a', s', rfl, h, halike, .refl s s'⟩

/-! ## Rules that do not look ahead -/

theorem modify {change change' : ReadState → ReadState} (hkeeps : Keeps s (change s))
    (h : Alike (some tail) s s' → (change s).rest ≠ [] →
      Alike (some tail) (change s) (change' s') ∧ SameGain s (change s) s' (change' s')) :
    CarriesAt tail (Rule.modify change) (Rule.modify change') s s' := by
  refine ⟨hkeeps, fun halike a t hclean => ?_⟩
  cases hclean.done
  obtain ⟨halike', hgain⟩ := h halike hclean.rest
  exact Or.inr ⟨(), change' s', rfl, rfl, halike', hgain⟩

theorem setKind {kind kind' : NodeKind} (h : bare kind = bare kind') (s s' : ReadState) :
    CarriesAt tail (Rule.setKind kind) (Rule.setKind kind') s s' :=
  modify (.of_eq rfl rfl rfl) fun halike _ =>
    ⟨⟨halike.facing, halike.speculating, halike.inOptional⟩, .setKind h s s'⟩

theorem enter (inOptional : Bool) (s s' : ReadState) :
    CarriesAt tail (Rule.modify fun s => { s with inOptional })
      (Rule.modify fun s => { s with inOptional }) s s' :=
  modify (.of_eq rfl rfl rfl) fun halike _ =>
    ⟨⟨halike.facing, halike.speculating, rfl⟩, .of_eq rfl rfl rfl rfl⟩

theorem leaf {kind kind' : NodeKind} (h : bare kind = bare kind') (span span' : Span)
    (s s' : ReadState) : CarriesAt tail (Rule.leaf kind span) (Rule.leaf kind' span') s s' := by
  refine ⟨AgreeAt.keeping_leaf kind span s, fun halike a t hclean => ?_⟩
  obtain ⟨hdone, _, _⟩ := hclean
  rcases AgreeAt.leaf_cases kind span s with ⟨fault, hr⟩ | ⟨nodes, hr, hgrows⟩
  · rw [hr] at hdone
    cases hdone
  rw [hr] at hdone
  cases hdone
  rcases AgreeAt.leaf_cases kind' span' s' with ⟨fault, hr'⟩ | ⟨nodes', hr', hgrows'⟩
  · exact Or.inl ⟨fault, hr'⟩
  · exact Or.inr ⟨(), _, hr', rfl, ⟨halike.facing, halike.speculating, halike.inOptional⟩,
      .of_grows hgrows hgrows' rfl (AgreeAt.bare_leaf h) rfl rfl⟩

/-! ## Reading on -/

/-- The `@end` of the first row is not read, so the token that is read stands in both rows. -/
theorem exists_cons (h : Alike (some tail) s s') (hrest : s.advance.rest ≠ []) :
    s.current = s'.current ∧ s.currentText = s'.currentText ∧
      Alike (some tail) s.advance s'.advance := by
  obtain ⟨t, ts, u, us, hs, hs', hface, hfacing⟩ | ⟨hnone, _⟩ | ⟨last, _, hs, _⟩ := h.facing.cases
  · rw [ReadState.current_of_cons hs, ReadState.current_of_cons hs',
      ReadState.currentText_of_cons hs, ReadState.currentText_of_cons hs',
      ReadState.advance_of_cons hs, ReadState.advance_of_cons hs']
    exact ⟨congrArg Prod.fst hface, congrArg Prod.snd hface, hfacing, h.speculating, h.inOptional⟩
  · cases hnone
  · rw [ReadState.advance_of_cons hs] at hrest
    exact absurd rfl hrest

theorem advance (s s' : ReadState) : CarriesAt tail Rule.advance Rule.advance s s' := by
  refine ⟨.of_reads (.advance s), fun halike a t hclean => ?_⟩
  obtain ⟨hdone, hrest, _⟩ := hclean
  cases hdone
  obtain ⟨_, _, halike'⟩ := exists_cons halike hrest
  exact Or.inr ⟨_, _, rfl, rfl, halike', .of_reads (.advance s) (.advance s')⟩

theorem expect (kind : TokenKind) (cause : SyntaxError.Cause) (s s' : ReadState) :
    CarriesAt tail (Rule.expect kind cause) (Rule.expect kind cause) s s' := by
  refine ⟨.expect kind cause s, fun halike a t hclean => ?_⟩
  obtain ⟨hdone, hrest, _⟩ := hclean
  unfold Rule.expect at hdone ⊢
  by_cases hc : s.current = kind
  · rw [if_pos hc] at hdone
    cases hdone
    obtain ⟨hcurrent, _, halike'⟩ := exists_cons halike hrest
    rw [if_pos (hcurrent ▸ hc)]
    exact Or.inr ⟨_, _, rfl, rfl, halike', .of_reads (.advance s) (.advance s')⟩
  · rw [if_neg hc] at hdone
    cases hdone

theorem identifier (cause : SyntaxError.Cause) (s s' : ReadState) :
    CarriesAt tail (Rule.identifier cause) (Rule.identifier cause) s s' := by
  refine ⟨.identifier cause s, fun halike a t hclean => ?_⟩
  obtain ⟨hdone, hrest, _⟩ := hclean
  unfold Rule.identifier at hdone ⊢
  by_cases hc : s.current = .identifier
  · rw [if_pos hc] at hdone
    cases hdone
    obtain ⟨hcurrent, htext, halike'⟩ := exists_cons halike hrest
    rw [if_pos (hcurrent ▸ hc), htext]
    exact Or.inr ⟨_, _, rfl, rfl, halike', .of_reads (.advance s) (.advance s')⟩
  · rw [if_neg hc] at hdone
    cases hdone

/-- A leaf over the next token, of which the first rule knows the kind. -/
theorem advanceLeaf {node : TokenKind → NodeKind} (s s' : ReadState) :
    CarriesAt tail (do
        let kind := (← Rule.state).current
        Rule.leaf (node kind) (← Rule.advance)) (do
        let kind := (← Rule.state).current
        Rule.leaf (node kind) (← Rule.advance)) s s' := by
  have known : ∀ kind s', CarriesAt tail (Rule.advance >>= Rule.leaf (node kind))
      (Rule.advance >>= Rule.leaf (node kind)) s s' := fun kind s' =>
    (advance s s').bind fun _ _ t t' _ => leaf rfl _ _ t t'
  refine state ⟨(known _ s).keeps, fun halike a t hclean => ?_⟩
  have hrest : s.advance.rest ≠ [] := by
    obtain ⟨_, u, hfirst, _⟩ := hclean.of_bind (.of_reads (.advance s))
      fun _ t => AgreeAt.keeping_leaf _ _ t
    obtain ⟨hdone, hrest, _⟩ := hfirst
    cases hdone
    exact hrest
  rw [← (exists_cons halike hrest).1]
  exact (known _ s').carries halike a t hclean

theorem keywordHere (s s' : ReadState) : CarriesAt tail Rule.keywordHere Rule.keywordHere s s' :=
  advanceLeaf s s'

theorem punctuationHere (s s' : ReadState) :
    CarriesAt tail Rule.punctuationHere Rule.punctuationHere s s' :=
  advanceLeaf s s'

/-- A group whose end is in common is read on both sides. -/
theorem optionalGroup {opening closing : TokenKind} (hopening : opening ≠ .atEnd)
    (hclosing : closing ≠ .atEnd) (htail : kindOf tail ≠ opening) (s s' : ReadState) :
    CarriesAt tail (Rule.modify (AgreeAt.optionalGroup opening closing))
      (Rule.modify (AgreeAt.optionalGroup opening closing)) s s' := by
  have key : ∀ ts us depth passed passed', Facing (some tail) ts us →
      (ReadState.skipGroup.move opening closing s depth passed ts).rest ≠ [] →
      Facing (some tail) (ReadState.skipGroup.move opening closing s depth passed ts).rest
        (ReadState.skipGroup.move opening closing s' depth passed' us).rest := by
    intro ts
    induction ts with
    | nil => exact fun us depth passed passed' h _ => absurd rfl h.ne_nil
    | cons t ts ih =>
      intro us depth passed passed' h hrest
      obtain ⟨_, _, u, us, heq, rfl, hface, hfacing⟩ | ⟨hnone, _⟩ | ⟨last, hlast, heq, _⟩ := h.cases
      · obtain ⟨rfl, rfl⟩ := List.cons.inj heq
        have hkind : t.kind = u.kind := congrArg Prod.fst hface
        unfold ReadState.skipGroup.move at hrest ⊢
        rw [← hkind]
        split
        · next hopen =>
          rw [if_pos hopen] at hrest
          exact ih us _ _ _ hfacing hrest
        · next hopen =>
          rw [if_neg hopen] at hrest
          split
          · next hclose =>
            rw [if_pos hclose] at hrest
            split
            · exact hfacing
            · next hdepth =>
              rw [if_neg hdepth] at hrest
              exact ih us _ _ _ hfacing hrest
          · next hclose =>
            rw [if_neg hclose] at hrest
            exact ih us _ _ _ hfacing hrest
      · cases hnone
      · -- Without its end in common the group takes the whole row.
        obtain ⟨rfl, rfl⟩ := List.cons.inj heq
        unfold ReadState.skipGroup.move at hrest
        rw [if_neg (by rw [hlast]; exact hopening.symm),
          if_neg (by rw [hlast]; exact hclosing.symm)] at hrest
        exact absurd rfl hrest
  refine modify (.of_reads (AgreeAt.reads_optionalGroup opening closing s)) fun halike hrest => ?_
  have hreads := AgreeAt.reads_optionalGroup opening closing s
  have hreads' := AgreeAt.reads_optionalGroup opening closing s'
  refine ⟨halike.of_reads hreads hreads' ?_, .of_reads hreads hreads'⟩
  have hiff := halike.current_iff htail hopening
  unfold AgreeAt.optionalGroup at hrest ⊢
  by_cases hc : s.current = opening
  · rw [if_pos hc] at hrest ⊢
    rw [if_pos (hiff.mp hc)]
    exact key s.rest s'.rest 0 s.passed s'.passed halike.facing hrest
  · rw [if_neg hc]
    rw [if_neg fun h => hc (hiff.mpr h)]
    exact halike.facing

/-! ## Nodes -/

theorem withNode {kind kind' : NodeKind} {r r' : Rule α} (hkind : bare kind = bare kind')
    (h : CarriesAt tail r r'
      { s with nodes := s.nodes.begin kind } { s' with nodes := s'.nodes.begin kind' }) :
    CarriesAt tail (Rule.withNode kind r) (Rule.withNode kind' r') s s' := by
  refine ⟨Keeping.withNode h.keeps, fun halike a u hclean => ?_⟩
  obtain ⟨t, hinner, hclose⟩ := hclean.of_withNode
  rcases h.carries ⟨halike.facing, halike.speculating, halike.inOptional⟩ a t hinner with
    ⟨fault, hr'⟩ | ⟨a', t', hr', ha, halike', hgain⟩
  · refine Or.inl ⟨fault, ?_⟩
    unfold Rule.withNode
    rw [hr']
  · unfold Rule.withNode
    rw [hr']
    simp only []
    cases hc : closeNode s'.currentSpan.start s'.position s'.nodes.depth t' with
    | error fault => exact Or.inl ⟨fault, rfl⟩
    | ok u' =>
      exact Or.inr ⟨a', u', rfl, ha, AgreeAt.alike_close halike' hclose hc,
        AgreeAt.sameGain_close hkind hgain hclose hc⟩

/-! ## Recovering -/

/-- A member that is read without an error need not be recovered. -/
theorem recoverMember {r r' : Rule Unit} (h : CarriesAt tail r r' s s') :
    CarriesAt tail (Grammar.recoverMember r) (Grammar.recoverMember r') s s' := by
  have hkeeps := h.keeps
  refine ⟨.recoverMember hkeeps, fun halike a t hclean => ?_⟩
  obtain ⟨hdone, hrest, herrors⟩ := hclean
  unfold Keeping Ends at hkeeps
  unfold Grammar.recoverMember at hdone ⊢
  cases hr : r s with
  | broken fault => rw [hr] at hdone; cases hdone
  | failed e u =>
    rw [hr] at hdone hkeeps
    cases hdone
    have hle := hkeeps.1.errors
    rw [errors_reportThenSkip hkeeps.2] at herrors
    omega
  | done b u =>
    rw [hr] at hdone
    cases hdone
    rcases h.carries halike a t ⟨hr, hrest, herrors⟩ with ⟨fault, hr'⟩ | ⟨a', t', hr', hcarried⟩
    · rw [hr']
      exact Or.inl ⟨fault, rfl⟩
    · rw [hr']
      exact Or.inr ⟨a', t', rfl, hcarried⟩

end CarriesAt

namespace ClosesAt

/-- What a rule that agrees leads to must be closed. -/
theorem after {r r' : Rule β} {f f' : β → Rule α} (h : AgreeAt (some tail) r r' s s')
    (hf : ∀ b b' t t', bare b = bare b' → ClosesAt tail (f b) (f' b') t t') :
    ClosesAt tail (r >>= f) (r' >>= f') s s' := by
  have hkeeps : ∀ b t, Keeping (f b) t := fun b t => (hf b b t t rfl).keeps
  have starves : RanOut (some tail) s.rest → ∀ a u, ¬ Cleanly (r >>= f) s a u := by
    intro hout a u hclean
    obtain ⟨b, t, hfirst, hsecond⟩ := hclean.of_bind h.keeps hkeeps
    have hleft := (h.keeps.of_done hfirst.done).rest _ hout
    exact (hf b b t t rfl).starves hleft a u hsecond
  refine ⟨⟨h.keeps.bind hkeeps, fun halike a u hclean => ?_⟩, starves⟩
  by_cases hout : RanOut (some tail) s.rest
  · exact absurd hclean (starves hout a u)
  obtain ⟨b, t, hfirst, hsecond⟩ := hclean.of_bind h.keeps hkeeps
  have hagreed := h.agreed halike hout
  rw [hfirst.done] at hagreed
  cases hr' : r' s' with
  | broken fault => exact Or.inl ⟨fault, bind_of_broken hr'⟩
  | failed e' t' =>
    rw [hr'] at hagreed
    cases hagreed with
    | doneOut _ _ out => exact absurd hsecond ((hf b b t t rfl).starves out a u)
  | done b' t' =>
    rw [hr'] at hagreed
    cases hagreed with
    | doneOut _ _ out => exact absurd hsecond ((hf b b t t rfl).starves out a u)
    | done values alike gain =>
      rw [bind_of_done hr']
      refine ((hf b b' t t' values).carries alike a u hsecond).imp_right ?_
      rintro ⟨a', u', hf', ha, halike', hgain⟩
      exact ⟨a', u', hf', ha, halike', gain.trans hgain⟩

theorem bind {r r' : Rule β} {f f' : β → Rule α} (h : ClosesAt tail r r' s s')
    (hf : ∀ b b' t t', bare b = bare b' → CarriesAt tail (f b) (f' b') t t') :
    ClosesAt tail (r >>= f) (r' >>= f') s s' := by
  refine ⟨h.toCarriesAt.bind hf, fun hout a u hclean => ?_⟩
  obtain ⟨b, t, hfirst, _⟩ := hclean.of_bind h.keeps fun b t => (hf b b t t rfl).keeps
  exact h.starves hout b t hfirst

theorem state {f f' : ReadState → Rule α} (h : ClosesAt tail (f s) (f' s') s s') :
    ClosesAt tail (Rule.state >>= f) (Rule.state >>= f') s s' :=
  ⟨h.toCarriesAt.state, fun hout a t hclean =>
    h.starves hout a t ⟨hclean.done, hclean.rest, hclean.errors⟩⟩

theorem ite {c c' : Prop} [Decidable c] [Decidable c'] {r₁ r₂ r₁' r₂' : Rule α}
    (hc : Alike (some tail) s s' → ¬ RanOut (some tail) s.rest → (c ↔ c'))
    (h : c → ClosesAt tail r₁ r₁' s s') (h' : ¬ c → ClosesAt tail r₂ r₂' s s') :
    ClosesAt tail (if c then r₁ else r₂) (if c' then r₁' else r₂') s s' := by
  have starves : RanOut (some tail) s.rest → ∀ a t, ¬ Cleanly (if c then r₁ else r₂) s a t := by
    intro hout
    split
    · next hcase => exact (h hcase).starves hout
    · next hcase => exact (h' hcase).starves hout
  refine ⟨⟨ends_ite.mpr ⟨fun hc => (h hc).keeps, fun hc => (h' hc).keeps⟩,
    fun halike a t hclean => ?_⟩, starves⟩
  by_cases hout : RanOut (some tail) s.rest
  · exact absurd hclean (starves hout a t)
  · have hiff := hc halike hout
    by_cases hcase : c
    · rw [if_pos hcase] at hclean
      rw [if_pos (hiff.mp hcase)]
      exact (h hcase).carries halike a t hclean
    · rw [if_neg hcase] at hclean
      rw [if_neg fun h => hcase (hiff.mpr h)]
      exact (h' hcase).carries halike a t hclean

/-- The second rule may be given by what the first row shows, since both rows show the same. -/
theorem seeing {r r₁ r₂ : Rule α} (h : ClosesAt tail r r₁ s s')
    (heq : Alike (some tail) s s' → ¬ RanOut (some tail) s.rest → r₁ = r₂) :
    ClosesAt tail r r₂ s s' := by
  refine ⟨⟨h.keeps, fun halike a t hclean => ?_⟩, h.starves⟩
  by_cases hout : RanOut (some tail) s.rest
  · exact absurd hclean (h.starves hout a t)
  · rw [← heq halike hout]
    exact h.carries halike a t hclean

/-- A token that a look ahead does not pass has to be there. -/
theorem expect {kind : TokenKind} (hfinal : kind.isFinal = true) (hend : kind ≠ .atEnd)
    (hfile : kind ≠ .endOfFile) (cause : SyntaxError.Cause) (s s' : ReadState) :
    ClosesAt tail (Rule.expect kind cause) (Rule.expect kind cause) s s' := by
  refine ⟨CarriesAt.expect kind cause s s', fun hout a t hclean => ?_⟩
  have hdone := hclean.done
  unfold Rule.expect at hdone
  rw [if_neg (show s.current ≠ kind from hout.kindOf_ne hfinal hend hfile)] at hdone
  cases hdone

theorem expectLeaf {kind : TokenKind} (hfinal : kind.isFinal = true) (hend : kind ≠ .atEnd)
    (hfile : kind ≠ .endOfFile) (cause : SyntaxError.Cause) (node : NodeKind) (s s' : ReadState) :
    ClosesAt tail (Rule.expect kind cause >>= Rule.leaf node)
      (Rule.expect kind cause >>= Rule.leaf node) s s' :=
  (expect hfinal hend hfile cause s s').bind fun _ _ t t' _ => CarriesAt.leaf rfl _ _ t t'

theorem withNode {kind kind' : NodeKind} {r r' : Rule α} (hkind : bare kind = bare kind')
    (h : ClosesAt tail r r'
      { s with nodes := s.nodes.begin kind } { s' with nodes := s'.nodes.begin kind' }) :
    ClosesAt tail (Rule.withNode kind r) (Rule.withNode kind' r') s s' := by
  refine ⟨CarriesAt.withNode hkind h.toCarriesAt, fun hout a u hclean => ?_⟩
  obtain ⟨t, hinner, _⟩ := hclean.of_withNode
  exact h.starves hout a t hinner

/-- Nothing has to be shown of a rule that is not read without an error. -/
theorem of_not_cleanly {r r' : Rule α} (hkeeps : Keeping r s) (h : ∀ a t, ¬ Cleanly r s a t) :
    ClosesAt tail r r' s s' :=
  ⟨⟨hkeeps, fun _ a t hclean => absurd hclean (h a t)⟩, fun _ => h⟩

theorem delimiter (shown : Bool) {kind : TokenKind} (hfinal : kind.isFinal = true)
    (hend : kind ≠ .atEnd) (hfile : kind ≠ .endOfFile) (cause : SyntaxError.Cause)
    (s s' : ReadState) : ClosesAt tail (Rule.delimiter shown kind cause)
      (Rule.delimiter shown kind cause) s s' := by
  unfold Rule.delimiter
  cases shown with
  | true => exact expectLeaf hfinal hend hfile cause _ s s'
  | false => exact (expect hfinal hend hfile cause s s').bind fun _ _ t t' _ => .pure rfl t t'

/-- A list ends in its closing delimiter. -/
theorem list {shown : Bool} {opening closing : TokenKind} {item item' : Rule α}
    (hfinal : closing.isFinal = true) (hend : closing ≠ .atEnd) (hfile : closing ≠ .endOfFile)
    (hitem : ∀ s s', AgreeAt (some tail) item item' s s') (s s' : ReadState) :
    ClosesAt tail (Rule.list shown opening closing item) (Rule.list shown opening closing item')
      s s' := by
  unfold Rule.list
  refine .after (.delimiter shown opening _ s s') fun _ _ s₁ s₁' _ => .state ?_
  refine .after (AgreeAt.listItems _ hitem _ _ _ _ s₁ s₁' rfl) fun found found' s₂ s₂' h => ?_
  obtain ⟨items, due⟩ := found
  obtain ⟨items', due'⟩ := found'
  obtain ⟨hitems, hdue⟩ := Prod.mk.inj h
  have hlists := AgreeAt.bare_toList hitems
  have last : ∀ t t', ClosesAt tail (AgreeAt.listEnd shown closing items)
      (AgreeAt.listEnd shown closing items') t t' := fun t t' =>
    .after (.splitCloser closing t t') fun _ _ s₃ s₃' _ =>
      (delimiter shown hfinal hend hfile _ s₃ s₃').bind fun _ _ s₄ s₄' _ => .pure hlists s₄ s₄'
  -- An item that is missing behind a comma is an error, whether it is noted or not.
  have hend : ∀ t, Keeping (AgreeAt.listEnd shown closing items) t := fun t => (last t t).keeps
  refine .ite (fun _ _ => by rw [show due = due' from hdue]) (fun _ => .state ?_) fun _ => last s₂ s₂'
  refine .ite (fun halike _ => by rw [halike.speculating]) (fun _ => ?_) fun _ => ?_
  · refine .of_not_cleanly ?_ fun a t hclean => ?_
    · exact Keeping.bind ⟨.refl s₂, rfl⟩ fun _ t => hend t
    · obtain ⟨_, _, hdone, _⟩ := exists_of_bind hclean.done
      cases hdone
  · refine .of_not_cleanly ?_ fun a t => not_cleanly_report rfl (hend _)
    exact Keeping.bind (.report s₂ _) fun _ t => hend t

omit [Bare β] in
/-- Where a slot is filled without an error it is filled with a value. -/
theorem recover {r r' : Rule β} {f f' : Slot β → Rule α} {sync : TokenKind → Bool}
    (hr : Keeping r s) (hf : ∀ slot t, Keeping (f slot) t)
    (h : ClosesAt tail (r >>= fun b => f (.valid b)) (r' >>= fun b => f' (.valid b)) s s') :
    ClosesAt tail (Rule.recover r sync >>= f) (Rule.recover r' sync >>= f') s s' := by
  have valid : ∀ {a u}, Cleanly (Rule.recover r sync >>= f) s a u →
      Cleanly (r >>= fun b => f (.valid b)) s a u := by
    intro a u hclean
    obtain ⟨slot, t, hfirst, hsecond⟩ := exists_of_bind hclean.done
    have hkeeps := hr
    have hnext := (hf slot t).of_done hsecond
    unfold Keeping Ends at hkeeps
    unfold Rule.recover at hfirst
    cases hrs : r s with
    | broken fault => rw [hrs] at hfirst; cases hfirst
    | failed e v =>
      rw [hrs] at hfirst hkeeps
      cases hfirst
      have hle := hkeeps.1.errors
      have hle' := hnext.errors
      rw [errors_reportThenSkip hkeeps.2, hclean.errors] at hle'
      omega
    | done b v =>
      rw [hrs] at hfirst
      cases hfirst
      exact ⟨(bind_of_done hrs).trans hsecond, hclean.rest, hclean.errors⟩
  refine ⟨⟨(Keeping.recover hr sync).bind hf, fun halike a u hclean => ?_⟩, fun hout a u hclean =>
    h.starves hout a u (valid hclean)⟩
  have same : ∀ {b' t'}, r' s' = .done b' t' →
      (Rule.recover r' sync >>= f') s' = (r' >>= fun b => f' (.valid b)) s' := by
    intro b' t' hr'
    have hrecover : Rule.recover r' sync s' = .done (.valid b') t' := by
      unfold Rule.recover
      rw [hr']
    rw [bind_of_done hr', bind_of_done hrecover]
  rcases h.carries halike a u (valid hclean) with ⟨fault, hbroken⟩ | ⟨a', u', hdone, hcarried⟩
  · refine Or.inl ⟨fault, ?_⟩
    cases hr' : r' s' with
    | done b' t' => exact (same hr').trans hbroken
    | failed e' t' =>
      rw [show (r' >>= fun b => f' (.valid b)) s' = .failed e' t' from bind_of_failed hr'] at hbroken
      cases hbroken
    | broken fault' =>
      rw [bind_of_broken hr'] at hbroken
      cases hbroken
      refine bind_of_broken ?_
      unfold Rule.recover
      rw [hr']
  · obtain ⟨b', t', hr', _⟩ := exists_of_bind hdone
    exact Or.inr ⟨a', u', (same hr').trans hdone, hcarried⟩

end ClosesAt

end Rule

end HeaderBridge
