/-
  How the loop over declarations gets to a declaration. Rows that have the tokens up to this
  declaration in common are read in lock step up to it, whatever stands behind what they have in
  common (`ComesTo.resumes`).
-/
import HeaderBridge.Proofs.Recovery.Bodies

namespace HeaderBridge.Grammar

open ReadState (kindOf)
open Bare (bare)
open Rule

variable {tail : Option (List Token)} {s t u : ReadState}

/-! ## Rounds -/

/-- Before the end of the file the loop over declarations makes one round. -/
theorem declarations_round (h : s.current ≠ .endOfFile) (fuel : Nat) :
    declarations (fuel + 1) s = (declarationRound s.current (isForwardProtocol s) >>=
      fun _ => declarations fuel) s := by
  rw [declarations_succ]
  show (if s.current = .endOfFile then _ else _ : Rule Unit) s = _
  rw [if_neg h]

/-- A round at the directive of a class, or of a protocol that is not only named. -/
theorem declarationRound_of_directive {inProtocol : Bool}
    (hdirective : s.current = if inProtocol then .atProtocol else .atInterface)
    (hdeclares : inProtocol = true → isForwardProtocol s = false) :
    declarationRound s.current (isForwardProtocol s) =
      recoverDeclaration (declaration inProtocol) := by
  rw [hdirective]
  cases inProtocol with
  | false => rfl
  | true =>
    rw [hdeclares rfl]
    rfl

/-- The loop over declarations comes from the first state to the second one. -/
inductive ComesTo : ReadState → ReadState → Prop where
  | refl (s : ReadState) : ComesTo s s
  | round {s t u : ReadState} (more : s.current ≠ .endOfFile)
      (done : declarationRound s.current (isForwardProtocol s) s = .done () t)
      (next : ComesTo t u) : ComesTo s u

theorem keeping_declarationRound (kind : TokenKind) (isForward : Bool) (s : ReadState) :
    Keeping (declarationRound kind isForward) s :=
  keeping_of_agreeAt (declarationRound_agreeAt kind isForward s s)

theorem ComesTo.keeps (h : ComesTo s t) : Keeps s t := by
  induction h with
  | refl s => exact .refl s
  | round _ done _ ih => exact ((keeping_declarationRound _ _ _).of_done done).trans ih

/-! ## What stands behind a directive -/

/-- A directive is passed over with what follows it. -/
theorem reads_skipUntil {stop : TokenKind → Bool} (h : stop s.current = false)
    (hfile : s.current ≠ .endOfFile) : s.advance.Reads (s.skipUntil stop) := by
  obtain ⟨front, rest, hrest, heq, _, hstop⟩ :=
    ReadState.Reads.readWhile_spec (fun ts => !stop (kindOf ts)) s
  cases front with
  | nil =>
    -- Skipping stops neither at the end of the row nor at the directive.
    rw [List.nil_append] at hrest
    rw [← hrest] at hstop
    rcases hstop with hnil | hstop
    · exact absurd (congrArg kindOf hnil) hfile
    · rw [show stop (kindOf s.rest) = false from h] at hstop
      cases hstop
  | cons x front =>
    refine ⟨front, rest, ?_, ?_⟩
    · rw [ReadState.advance_of_cons (hrest.trans List.cons_append)]
      rfl
    · rw [ReadState.advance_of_cons (hrest.trans List.cons_append), ReadState.past_past]
      exact heq

/-- Where a look ahead may pass the common tokens it may do so behind the rule. -/
theorem ranOut_of_keeping {α : Type} {r : Rule α} (h : Keeping r s) (hout : RanOut tail s.rest) :
    Ends True r s (fun _ t => RanOut tail t.rest) fun _ t => RanOut tail t.rest :=
  h.mono (fun _ _ hkeeps => hkeeps.rest tail hout) fun _ _ hkeeps => hkeeps.1.rest tail hout

/-- The same with what stands behind a directive, where a node starts with this directive. -/
theorem ranOut_behind_keywordHere {kind : NodeKind} {f : Unit → Rule Unit}
    (hf : ∀ b t, Keeping (f b) t) (hout : RanOut tail (s.rest.drop 1)) :
    Ends True (withNode kind (keywordHere >>= f)) s (fun _ t => RanOut tail t.rest)
      fun _ t => RanOut tail t.rest := by
  have hkeyword : Ends True keywordHere { s with nodes := s.nodes.begin kind }
      (fun _ t => RanOut tail t.rest) fun _ t => RanOut tail t.rest := by
    refine ends_bind.mpr (ends_state.mpr (ends_bind.mpr (ends_advance.mpr ?_)))
    refine ranOut_of_keeping (AgreeAt.keeping_leaf _ _ _) ?_
    rw [ReadState.rest_advance]
    exact hout
  have hparts := ends_bind.mpr (hkeyword.mono (fun b t hleft => ranOut_of_keeping (hf b t) hleft)
    fun _ _ hleft => hleft)
  refine ends_withNode hparts (fun _ t u hleft hclose => ?_) fun _ t u hleft hclose => ?_
  · obtain ⟨_, _, _, _, _, _, _, rfl⟩ := closeNode_cases hclose
    exact hleft
  · obtain ⟨_, _, _, _, _, _, _, rfl⟩ := closeNode_cases hclose
    exact hleft

/-- A round at a directive of a protocol reads this directive. -/
theorem ranOut_behind_protocol {isForward : Bool} (hc : s.current = .atProtocol)
    (hout : RanOut tail (s.rest.drop 1)) :
    Ends True (declarationRound .atProtocol isForward) s (fun _ t => RanOut tail t.rest)
      fun _ t => RanOut tail t.rest := by
  cases isForward with
  | true =>
    have hreads : s.advance.Reads (s.skipUntil (· == .semicolon)) :=
      reads_skipUntil (by rw [hc]; rfl) (by rw [hc]; decide)
    refine ends_bind.mpr (ends_modify.mpr ?_)
    exact ranOut_of_keeping (keeping_of_agreeAt (AgreeAt.eatThenPure _ _ _))
      ((Keeps.of_reads hreads).rest tail (by rwa [ReadState.rest_advance]))
  | false =>
    have hread : Ends True protocolDeclaration s (fun _ t => RanOut tail t.rest)
        fun _ t => RanOut tail t.rest :=
      ranOut_behind_keywordHere (fun _ t => keeping_of_agreeAt (protocolParts_agreeAt t t)) hout
    show Ends True (recoverDeclaration protocolDeclaration) s _ _
    unfold Ends at hread ⊢
    unfold recoverDeclaration
    cases hr : protocolDeclaration s with
    | broken fault => trivial
    | done a t => rw [hr] at hread; exact hread
    | failed e t =>
      rw [hr] at hread
      exact ranOut_of_keeping (keeping_of_agreeAt (AgreeAt.eatThenPure _ _ _))
        ((keeps_reportThenSkip t e _).rest tail hread)

/-! ## Lock step -/

/-- Rows that have in common what leads to a declaration are read in lock step up to it. -/
theorem ComesTo.resumes {s₀ t₀ : ReadState} (h : ComesTo s₀ t₀) (hsees : ¬ RanOut tail t₀.rest)
    (halike : Alike tail s₀ s) (fuel : Nat) : (∃ fault, declarations fuel s = .broken fault) ∨
      ∃ more t, declarations fuel s = declarations more t ∧ Alike tail t₀ t ∧
        SameGain s₀ t₀ s t := by
  induction h generalizing s fuel with
  | refl s₀ => exact Or.inr ⟨fuel, s, rfl, halike, .refl s₀ s⟩
  | @round s₀ t₁ t₀ more done next ih =>
    cases fuel with
    | zero => exact Or.inl ⟨.exhausted, rfl⟩
    | succ fuel =>
    have hnext : ¬ RanOut tail t₁.rest := fun hout => hsees (next.keeps.rest tail hout)
    have hfirst : ¬ RanOut tail s₀.rest := fun hout =>
      hnext (((keeping_declarationRound _ _ _).of_done done).rest tail hout)
    have hround := declarationRound_eq halike hfirst fun hc hout => hnext <| by
      rw [hc] at done
      exact (ranOut_behind_protocol hc hout).of_done done
    rw [declarations_round (by rwa [← halike.current_eq hfirst]), ← hround]
    have hagreed := (declarationRound_agreeAt s₀.current (isForwardProtocol s₀) s₀ s).agreed halike
      hfirst
    rw [done] at hagreed
    cases hr : declarationRound s₀.current (isForwardProtocol s₀) s with
    | broken fault => exact Or.inl ⟨fault, bind_of_broken hr⟩
    | failed e t =>
      rw [hr] at hagreed
      cases hagreed with
      | doneOut _ _ out => exact absurd out hnext
    | done _ t =>
      rw [hr] at hagreed
      rw [bind_of_done hr]
      cases hagreed with
      | doneOut _ _ out => exact absurd out hnext
      | done _ alike gain =>
        refine (ih hsees alike fuel).imp_right ?_
        rintro ⟨more, u, heq, halike', hgain⟩
        exact ⟨more, u, heq, halike', gain.trans hgain⟩

end HeaderBridge.Grammar
