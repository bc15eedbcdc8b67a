/-
  The rules for type names do not break: the fuel of every loop is more than what can be read, and
  a type name ends behind where it starts.
-/
import HeaderBridge.Objc.Grammar.TypeName
import HeaderBridge.Proofs.Reading.Safe

namespace HeaderBridge.Grammar

open Rule

theorem qualifiers_safeAt (s : ReadState) : SafeAt qualifiers s := by
  unfold qualifiers SafeAt
  simp only [ends_bind, ends_state, ends_modify, ends_pure]
  exact .of_reads (.readWhile _ s)

theorem baseName_gainAt (s : ReadState) : GainAt baseName s := by
  unfold baseName
  refine (GainAt.identifier _ s).bind fun first s₁ _ => .state ?_
  refine (SafeAt.modify ?_).bind fun _ s₂ _ => SafeAt.pure _ s₂
  exact .of_reads (.foldl_advance _ s₁)

theorem stars_safeAt (fuel : Nat) (type : ObjcType) (found : Option Nullability) (s : ReadState)
    (h : s.weight < fuel) : SafeAt (stars fuel type found) s := by
  induction fuel generalizing type found s with
  | zero => omega
  | succ fuel ih =>
    unfold stars SafeAt
    simp only [ends_bind, ends_eat]
    refine ⟨fun hstar => ?_, fun _ => .refl s⟩
    have hon := Passage.onward_advance hstar (by decide)
    refine SafeAt.from ?_ hon.1
    refine (qualifiers_safeAt s.advance).bind fun behind s₂ h₂ => ih _ _ s₂ ?_
    have := hon.weight_lt
    have := h₂.weight_le
    omega

theorem objcType_gainAt (fuel : Nat) (s : ReadState) (hs : s.Sound) (h : s.weight < fuel) :
    GainAt (objcType fuel) s := by
  induction fuel generalizing s with
  | zero => omega
  | succ fuel ih =>
    unfold objcType
    refine (baseName_gainAt s).bind fun name s₁ h₁ => .state ?_
    have hs₁ := h₁.1.sound hs
    have hw₁ := h₁.weight_lt
    have hstars : ∀ type s₂, SafeAt (do stars ((← state).weight + 1) type none) s₂ :=
      fun type s₂ => .state (stars_safeAt _ type none s₂ (Nat.lt_succ_self _))
    have hnext : ∀ type s₂, SafeAt (do
        let type ← pure type
        stars ((← state).weight + 1) type none) s₂ :=
      fun type s₂ => (SafeAt.pure type s₂).bind fun type s₃ _ => hstars type s₃
    refine .ite (fun _ => .ite (fun _ => ?_) fun _ => ?_) fun _ => hnext _ s₁
    · exact (GainAt.list hs₁ (by decide) (by decide) fun s' _ _ =>
        (GainAt.identifier _ s').safeAt.map _).safeAt.bind fun _ s₂ _ => hnext _ s₂
    · refine (GainAt.list hs₁ (by decide) (by decide) fun s' hs' hw' => ?_).safeAt.bind
        fun _ s₂ _ => hnext _ s₂
      refine (qualifiers_safeAt s').bind fun _ s₂ h₂ => ?_
      have hw₂ := h₂.weight_le
      exact (ih s₂ (h₂.sound hs') (by omega)).safeAt.bind fun _ s₃ _ => SafeAt.pure _ s₃

theorem failingAs_gainAt {α : Type} {cause : SyntaxError.Cause} {r : Rule α} {s : ReadState}
    (h : GainAt r s) : GainAt (failingAs cause r) s := by
  unfold GainAt Ends at h ⊢
  unfold failingAs
  cases hr : r s with
  | done a s' => rw [hr] at h; exact h
  | failed e s' => rw [hr] at h; exact h
  | broken f => rw [hr] at h; exact h

theorem typeName_gainAt {s : ReadState} (hs : s.Sound) : GainAt typeName s := by
  unfold typeName GainAt
  simp only [ends_bind, ends_state]
  refine (qualifiers_safeAt s).mono (fun inFront s₁ h₁ => ?_) fun _ _ h => h
  have hfuel : s₁.weight < s₁.weight + 1 := Nat.lt_succ_self _
  refine (failingAs_gainAt (objcType_gainAt _ s₁ (h₁.sound hs) hfuel)).mono
    (fun found s₂ h₂ => ?_) fun _ s₂ h₂ => h₁.trans h₂
  have hon : Onward s s₂ := .trans_right h₁ h₂
  obtain ⟨type, behind⟩ := found
  simp only []
  unfold Span.between
  rw [dif_pos (hon.1.forward.start_le_lastEnd hs hon.2)]
  exact hon

end HeaderBridge.Grammar
