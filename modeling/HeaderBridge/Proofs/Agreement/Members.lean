/-
  Declarations that are read without errors up to a place in their bodies are read in the same way
  whatever stands behind that place. A body that an `@end` could close there goes on from there as
  the loop over its members does (`memberList_resumes`).
-/
import HeaderBridge.Proofs.Agreement.Carrying
import HeaderBridge.Proofs.Agreement.Rules

namespace HeaderBridge.Grammar

open ReadState (kindOf)
open Bare (bare)
open Rule

variable {tail : List Token}

/-- What agrees with itself keeps the errors. -/
theorem keeping_of_agreeAt {α : Type} [Bare α] {r : Rule α} {s : ReadState}
    (h : AgreeAt none r r s s) : Keeping r s := h.keeps

/-! ## Members -/

theorem propertyEnd_closesAt (isOptional : Bool) {type type' : TypeName} {name name' : Ident}
    (htype : bare type = bare type') (hname : bare name = bare name') (s s' : ReadState) :
    ClosesAt tail (propertyEnd isOptional (.valid type) (.valid name))
      (propertyEnd isOptional (.valid type') (.valid name')) s s' := by
  have hkind : bare (NodeKind.property ⟨.valid type, .valid name, isOptional⟩) =
      bare (NodeKind.property ⟨.valid type', .valid name', isOptional⟩) := by
    show NodeKind.property ⟨.valid (bare type), .valid (bare name), isOptional⟩ =
      NodeKind.property ⟨.valid (bare type'), .valid (bare name'), isOptional⟩
    rw [htype, hname]
  exact .after (.setKind hkind s s') fun _ _ s₁ s₁' _ =>
    .expectLeaf rfl (by decide) (by decide) _ _ s₁ s₁'

theorem propertyFields_closesAt (isOptional : Bool) (s s' : ReadState) :
    ClosesAt tail (propertyFields isOptional) (propertyFields isOptional) s s' := by
  refine .recover (keeping_of_agreeAt (typeName_agreeAt s s)) (fun slot t => ?_) ?_
  · exact keeping_of_agreeAt ((propertyName_agreeAt rfl t t).bind fun _ _ u u' h =>
      propertyEnd_agreeAt isOptional rfl h u u')
  refine .after (typeName_agreeAt s s') fun type type' s₁ s₁' htype => ?_
  rw [propertyName_valid, propertyName_valid]
  refine .recover (.identifier _ s₁) (fun slot t => ?_) ?_
  · exact keeping_of_agreeAt (propertyEnd_agreeAt isOptional rfl rfl t t)
  · exact .after (.identifier _ s₁ s₁') fun name name' s₂ s₂' hname =>
      propertyEnd_closesAt isOptional htype hname s₂ s₂'

theorem property_closesAt (s s' : ReadState) : ClosesAt tail property property s s' := by
  have parts : ∀ isOptional (s s' : ReadState),
      ClosesAt tail (propertyParts isOptional) (propertyParts isOptional) s s' := by
    intro isOptional s s'
    refine .after (.keywordHere s s') fun _ _ s₁ s₁' _ => .state (.ite ?_ (fun _ => ?_) fun _ => ?_)
    · intro halike hsees
      rw [halike.current_eq hsees]
    · exact .after (modifierList_agreeAt s₁ s₁') fun _ _ s₂ s₂' _ =>
        propertyFields_closesAt isOptional s₂ s₂'
    · exact propertyFields_closesAt isOptional s₁ s₁'
  rw [property_eq]
  refine .state (.seeing (.withNode rfl (parts _ _ _)) fun halike _ => ?_)
  rw [halike.inOptional]

theorem methodParts_closesAt (start : MethodData) (s s' : ReadState) :
    ClosesAt tail (methodParts start) (methodParts start) s s' := by
  refine .after (.punctuationHere s s') fun _ _ s₁ s₁' _ => ?_
  refine .after (optionalType_agreeAt s₁ s₁') fun returns returns' s₂ s₂' hreturns => ?_
  refine .after (selector_agreeAt s₂ s₂') fun found found' s₃ s₃' hfound => ?_
  refine .after (.setKind (methodKind_eq start hreturns hfound) s₃ s₃') fun _ _ s₄ s₄' _ => ?_
  exact .after (attributes_agreeAt s₄ s₄') fun _ _ s₅ s₅' _ =>
    .expectLeaf rfl (by decide) (by decide) _ _ s₅ s₅'

theorem method_closesAt (s s' : ReadState) : ClosesAt tail method method s s' := by
  rw [method_eq]
  refine .state (.seeing (.withNode rfl (methodParts_closesAt _ _ _)) fun halike hsees => ?_)
  rw [halike.inOptional, halike.current_eq hsees]

/-- An unknown member is never read without an error. -/
theorem not_cleanly_unknownMember (cause : SyntaxError.Cause) (s : ReadState) (t : ReadState) :
    ¬ Cleanly (unknownMember cause) s () t := fun hclean =>
  not_cleanly_report rfl (keeping_of_agreeAt (skipMember_agreeAt _ _))
    ⟨hclean.done, hclean.rest, hclean.errors⟩

/-- A member that is read without an error is read in the same way in front of anything. -/
theorem memberRound_carriesAt (cause : SyntaxError.Cause) (inProtocol : Bool) (kind : TokenKind)
    (s s' : ReadState) : CarriesAt tail (memberRound cause inProtocol kind)
      (memberRound cause inProtocol kind) s s' := by
  have unknown : CarriesAt tail (unknownMember cause) (unknownMember cause) s s' :=
    ⟨keeping_of_agreeAt (unknownMember_agreeAt cause s s), fun _ _ t hclean =>
      absurd hclean (not_cleanly_unknownMember cause s t)⟩
  have enter : ∀ inOptional : Bool, CarriesAt tail (do
      modify fun s => { s with inOptional }
      keywordHere) (do
      modify fun s => { s with inOptional }
      keywordHere) s s' := fun inOptional =>
    (CarriesAt.enter inOptional s s').bind fun _ _ s₁ s₁' _ => .keywordHere s₁ s₁'
  unfold memberRound
  split
  · exact .recoverMember (property_closesAt s s').toCarriesAt
  · exact .recoverMember (method_closesAt s s').toCarriesAt
  · exact .recoverMember (method_closesAt s s').toCarriesAt
  · exact .ite (fun _ => Iff.rfl) (fun _ => enter _) fun _ => unknown
  · exact .ite (fun _ => Iff.rfl) (fun _ => enter _) fun _ => unknown
  · exact unknown

/-- Members that are read without an error up to an `@end` are read in the same way in front of
    anything, and then the loop goes on. -/
theorem memberList_resumes {cause : SyntaxError.Cause} {inProtocol : Bool} {last : Token}
    {t : ReadState} (fuel : Nat) : ∀ fuel' (s s' : ReadState), Alike (some tail) s s' →
      Cleanly (memberList cause inProtocol fuel) s () t → t.rest = [last] →
      (∃ fault, memberList cause inProtocol fuel' s' = .broken fault) ∨
        ∃ more t', memberList cause inProtocol fuel' s' = memberList cause inProtocol more t' ∧
          Alike (some tail) t t' ∧ SameGain s t s' t' := by
  induction fuel with
  | zero =>
    intro _ s _ _ hclean _
    cases hclean.done
  | succ fuel ih =>
    intro fuel' s s' halike hclean hlast
    cases fuel' with
    | zero => exact Or.inl ⟨.exhausted, rfl⟩
    | succ fuel' =>
      rw [memberList_succ] at hclean
      have hdone : (if endsBody s.current then Pure.pure () else do
        memberRound cause inProtocol s.current
        memberList cause inProtocol fuel : Rule Unit) s = .done () t := hclean.done
      by_cases hend : endsBody s.current = true
      · -- The first loop is over, so it stands before the last token of its row.
        rw [if_pos hend] at hdone
        cases hdone
        exact Or.inr ⟨fuel' + 1, s', rfl, halike, .refl _ s'⟩
      · rw [if_neg hend] at hdone
        obtain ⟨x, xs, y, ys, hs, hs', hface, _⟩ := halike.facing.cons_of_ne
          (show s.current ≠ .atEnd from fun h => hend (by rw [h]; rfl))
        have hcurrent : s.current = s'.current := by
          rw [ReadState.current_of_cons hs, ReadState.current_of_cons hs']
          exact congrArg Prod.fst hface
        have hsecond : memberList cause inProtocol (fuel' + 1) s' = (do
            memberRound cause inProtocol s.current
            memberList cause inProtocol fuel' : Rule Unit) s' := by
          rw [memberList_succ, hcurrent]
          show (if endsBody s'.current then Pure.pure () else _ : Rule Unit) s' = _
          rw [if_neg (by rwa [← hcurrent])]
        have hround : CarriesAt tail (memberRound cause inProtocol s.current)
            (memberRound cause inProtocol s.current) s s' :=
          memberRound_carriesAt cause inProtocol s.current s s'
        obtain ⟨_, u, hfirst, hnext⟩ := Cleanly.of_bind ⟨hdone, hclean.rest, hclean.errors⟩
          hround.keeps fun _ v => keeping_of_agreeAt (memberList_agreeAt cause inProtocol _ _ v v)
        rw [hsecond]
        rcases hround.carries halike () u hfirst with ⟨fault, hr'⟩ | ⟨_, u', hr', _, halike', hgain⟩
        · exact Or.inl ⟨fault, bind_of_broken hr'⟩
        · rw [bind_of_done hr']
          refine (ih fuel' u u' halike' hnext hlast).imp_right ?_
          rintro ⟨more, t', heq, halike'', hgain'⟩
          exact ⟨more, t', heq, halike'', hgain.trans hgain'⟩

end HeaderBridge.Grammar
