/-
  The rules for expressions do not break. Every expression inside another one starts behind a
  token of the outer one, so that what can still be read bounds the depth; every round of a loop
  reads a token, so that it bounds the rounds as well.
-/
import HeaderBridge.Objc.Grammar.Expr
import HeaderBridge.Proofs.Totality.Types

namespace HeaderBridge.Grammar

open Rule

/-- The rule for whole expressions is safe as long as less than `n` can be read. -/
def SafeBelow (n : Nat) (expr : Nat → Rule ObjcExpr) : Prop :=
  ∀ power s, s.Sound → s.weight < n → SafeAt (expr power) s

section Parts

variable {expr : Nat → Rule ObjcExpr} {n : Nat} {s : ReadState}

theorem typeInParens_gainAt (hs : s.Sound) : GainAt typeInParens s := by
  unfold typeInParens
  refine (SafeAt.advance s).bindGain fun _ s₁ h₁ => ?_
  refine (typeName_gainAt (h₁.sound hs)).bind fun name s₂ _ => ?_
  exact (GainAt.expect (by decide) _ s₂).safeAt.bind fun _ s₃ _ => SafeAt.pure _ s₃

theorem castType_gainAt (hs : s.Sound) : GainAt castType s := by
  unfold castType
  refine (SafeAt.advance s).bindGain fun _ s₁ h₁ => ?_
  refine (typeName_gainAt (h₁.sound hs)).bind fun name s₂ _ => ?_
  refine (GainAt.expect (by decide) _ s₂).safeAt.bind fun _ s₃ _ => .state ?_
  exact .ite (fun _ => SafeAt.pure _ s₃) fun _ => SafeAt.failHere _ s₃

theorem sizeOf_safeAt (hx : SafeBelow n expr) (hs : s.Sound) (hc : s.current ≠ .endOfFile)
    (hw : s.weight ≤ n) : SafeAt (sizeOf expr) s := by
  unfold sizeOf
  refine SafeAt.advanceThen hs hc fun _ s₁ hs₁ hw₁ => .state ?_
  have hlast : ∀ (type : Option ObjcType) s₂, s₂.Sound → s₂.weight ≤ s₁.weight →
      SafeAt (sizeOfOperand expr type) s₂ := fun type s₂ hs₂ hw₂ => by
    cases type with
    | some type => exact SafeAt.pure _ s₂
    | none => exact (hx _ s₂ hs₂ (by omega)).bind fun _ s₃ _ => SafeAt.pure _ s₃
  refine .ite (fun _ => ?_) fun _ => ?_
  · refine (SafeAt.attempt (typeInParens_gainAt (hs₁.speculate))).bind fun type s₂ h₂ => ?_
    exact hlast type s₂ (h₂.sound hs₁) h₂.weight_le
  · exact (SafeAt.pure none s₁).bind fun type s₂ h₂ => hlast type s₂ (h₂.sound hs₁) h₂.weight_le

/-- Where as many tokens are read, the same token is current, if one was. -/
theorem current_ne_of_position_eq {s' : ReadState} (hp : Passage s s')
    (he : s'.position = s.position) (hc : s.current ≠ .endOfFile) : s'.current ≠ .endOfFile := by
  obtain ⟨front, hf, hr⟩ := hp.forward.moved
  have hnil : front = [] := by
    have := congrArg List.length hf
    simp only [List.length_append, List.length_reverse] at this
    unfold ReadState.position at he
    exact List.eq_nil_of_length_eq_zero (by omega)
  rw [hnil, List.nil_append] at hr
  unfold ReadState.current at hc ⊢
  rcases hr.kindOf_eq with h | ⟨_, h⟩
  · rwa [← h]
  · rw [h]
    decide

theorem castOrGroup_safeAt (hx : SafeBelow n expr) (hs : s.Sound) (hc : s.current ≠ .endOfFile)
    (hw : s.weight ≤ n) : SafeAt (castOrGroup expr) s := by
  unfold castOrGroup SafeAt
  rw [ends_bind]
  refine (ends_attempt (castType_gainAt (hs.speculate))).mono
    (fun type s₁ h₁ => ?_) fun _ _ h => h.elim
  obtain ⟨hp, hpos⟩ := h₁
  have hs₁ := hp.sound hs
  refine SafeAt.from ?_ hp
  cases type with
  | some type =>
    have hw₁ := hp.forward.weight_lt hpos
    exact (hx _ s₁ hs₁ (by omega)).bind fun _ s₂ _ => SafeAt.pure _ s₂
  | none =>
    have hw₁ := hp.weight_le
    refine SafeAt.advanceThen hs₁ (current_ne_of_position_eq hp hpos hc) fun _ s₂ hs₂ hw₂ => ?_
    refine (hx 0 s₂ hs₂ (by omega)).bind fun inner s₃ _ => ?_
    exact (GainAt.expect (by decide) _ s₃).safeAt.bind fun _ s₄ _ => SafeAt.pure _ s₄

theorem moreArguments_safeAt (hx : SafeBelow n expr) (fuel : Nat) :
    ∀ read (s : ReadState), s.Sound → s.weight < n → s.weight < fuel →
      SafeAt (moreArguments expr fuel read) s := by
  induction fuel with
  | zero => intro _ s _ _ h; omega
  | succ fuel ih =>
    intro read s hs hw hf
    unfold moreArguments
    refine (hx 0 s hs hw).bind fun e s₁ h₁ => ?_
    have hw₁ := h₁.weight_le
    unfold SafeAt
    simp only [ends_bind, ends_eat, Bool.false_eq_true, if_true, if_false]
    refine ⟨fun hc => ?_, fun _ => .refl s₁⟩
    have hon := Passage.onward_advance hc (by decide)
    have := hon.weight_lt
    exact (ih _ _ (hon.1.sound (h₁.sound hs)) (by omega) (by omega)).from hon.1

theorem callArguments_onwardAt (hx : SafeBelow n expr) (hs : s.Sound)
    (hc : s.current ≠ .endOfFile) (hw : s.weight ≤ n) : OnwardAt (callArguments expr) s := by
  unfold callArguments
  refine OnwardAt.advanceThen hs hc fun _ s₁ hs₁ hw₁ => .state ?_
  have hlast : ∀ (read : Array ObjcExpr) s₂, SafeAt (do
      let _ ← Rule.expect .rightParen .argumentsEnd
      return read.toList) s₂ := fun read s₂ =>
    (GainAt.expect (by decide) _ s₂).safeAt.bind fun _ s₃ _ => SafeAt.pure _ s₃
  refine .ite (fun _ => (SafeAt.pure _ s₁).bind fun read s₂ _ => hlast read s₂) fun _ => ?_
  exact (moreArguments_safeAt hx _ _ s₁ hs₁ (by omega) (Nat.lt_succ_self _)).bind
    fun read s₂ _ => hlast read s₂

theorem messageArguments_safeAt (hx : SafeBelow n expr) (fuel : Nat) :
    ∀ selector read (s : ReadState), s.Sound → s.weight ≤ n → s.weight < fuel →
      SafeAt (messageArguments expr fuel selector read) s := by
  induction fuel with
  | zero => intro _ _ s _ _ h; omega
  | succ fuel ih =>
    intro selector read s hs hw hf
    unfold messageArguments
    refine .state (.ite (fun hc => ?_) fun _ => ?_)
    · have hident : s.current = .identifier := by
        rw [Bool.and_eq_true, decide_eq_true_iff] at hc
        exact hc.1
      refine SafeAt.advanceThen hs (by rw [hident]; decide) fun _ s₁ hs₁ hw₁ => ?_
      refine (SafeAt.advance s₁).bind fun _ s₂ h₂ => ?_
      have hw₂ := h₂.weight_le
      have hs₂ := h₂.sound hs₁
      refine (hx 0 s₂ hs₂ (by omega)).bind fun e s₃ h₃ => ?_
      have hw₃ := h₃.weight_le
      exact ih _ _ s₃ (h₃.sound hs₂) (by omega) (by omega)
    · unfold SafeAt
      rw [ends_bind, ends_eat]
      refine ⟨fun hc => ?_, fun _ => .refl s⟩
      have hon := Passage.onward_advance hc (by decide)
      have hw₁ := hon.weight_lt
      have hs₁ := hon.1.sound hs
      refine SafeAt.from (SafeAt.bind (hx 0 _ hs₁ (by omega)) fun e s₂ h₂ => ?_) hon.1
      have hw₂ := h₂.weight_le
      exact ih _ _ s₂ (h₂.sound hs₁) (by omega) (by omega)

theorem message_safeAt (hx : SafeBelow n expr) (hs : s.Sound) (hc : s.current ≠ .endOfFile)
    (hw : s.weight ≤ n) : SafeAt (message expr) s := by
  unfold message
  refine SafeAt.advanceThen hs hc fun _ s₁ hs₁ hw₁ => ?_
  refine (hx 0 s₁ hs₁ (by omega)).bind fun receiver s₂ h₂ => ?_
  have hw₂ := h₂.weight_le
  have hs₂ := h₂.sound hs₁
  refine (GainAt.identifier _ s₂).safeAt.bind fun first s₃ h₃ => ?_
  have hw₃ := h₃.weight_le
  have hs₃ := h₃.sound hs₂
  have hlast : ∀ (found : String × Array (Labelled ObjcExpr)) s₄, SafeAt (do
      let _ ← Rule.expect .rightBracket .messageEnd
      return (.message receiver found.1 found.2.toList : ObjcExpr)) s₄ := fun found s₄ =>
    (GainAt.expect (by decide) _ s₄).safeAt.bind fun _ s₅ _ => SafeAt.pure _ s₅
  refine (SafeAt.eat _ s₃).bind fun colon s₄ h₄ => .ite (fun _ => ?_) fun _ => ?_
  · have hw₄ := h₄.weight_le
    have hs₄ := h₄.sound hs₃
    refine (hx 0 s₄ hs₄ (by omega)).bind fun value s₅ h₅ => .state ?_
    have hw₅ := h₅.weight_le
    exact (messageArguments_safeAt hx _ _ _ s₅ (h₅.sound hs₄) (by omega)
      (Nat.lt_succ_self _)).bind fun found s₆ _ => hlast found s₆
  · exact (SafeAt.pure _ s₄).bind fun found s₅ _ => hlast found s₅

theorem word_safeAt (hx : SafeBelow n expr) (hs : s.Sound) (hc : s.current ≠ .endOfFile)
    (hw : s.weight ≤ n) : SafeAt (word expr) s := by
  unfold word
  refine .state ?_
  simp only []
  cases literalWord? s.currentText with
  | some literal => exact (SafeAt.advance s).bind fun _ s₁ _ => SafeAt.pure _ s₁
  | none =>
    refine .ite (fun _ => sizeOf_safeAt hx hs hc hw) fun _ => ?_
    exact (SafeAt.advance s).bind fun _ s₁ _ => SafeAt.pure _ s₁

theorem strings_safeAt (s : ReadState) : SafeAt strings s := by
  unfold strings SafeAt
  simp only [ends_bind, ends_state, ends_modify, ends_pure]
  exact .of_reads (.readWhile _ s)

theorem operand_safeAt (hx : SafeBelow n expr) (hs : s.Sound) (hw : s.weight ≤ n) :
    SafeAt (operand expr) s := by
  have hlit : ∀ value : ObjcExpr, SafeAt (do let _ ← advance; return value) s := fun value =>
    (SafeAt.advance s).bind fun _ s₁ _ => SafeAt.pure _ s₁
  unfold operand
  refine .state ?_
  split
  · next op hop =>
    have hc : s.current ≠ .endOfFile := by
      intro h
      rw [h] at hop
      cases hop
    refine SafeAt.advanceThen hs hc fun _ s₁ hs₁ hw₁ => ?_
    exact (hx _ s₁ hs₁ (by omega)).bind fun _ s₂ _ => SafeAt.pure _ s₂
  · split
    · exact hlit _
    · exact hlit _
    · exact (strings_safeAt s).bind fun _ s₁ _ => SafeAt.pure _ s₁
    · exact hlit _
    · next hc => exact word_safeAt hx hs (by rw [hc]; decide) hw
    · next hc => exact castOrGroup_safeAt hx hs (by rw [hc]; decide) hw
    · next hc => exact message_safeAt hx hs (by rw [hc]; decide) hw
    · exact SafeAt.failHere _ s

theorem joined_safeAt (hx : SafeBelow n expr) (joint : Joint) (lhs : ObjcExpr) (hs : s.Sound)
    (hw : s.weight < n) : SafeAt (joined expr joint lhs) s := by
  unfold joined
  cases joint with
  | assign op => exact (hx _ s hs hw).bind fun _ s₁ _ => SafeAt.pure _ s₁
  | binary op => exact (hx _ s hs hw).bind fun _ s₁ _ => SafeAt.pure _ s₁
  | ternary =>
    refine (hx _ s hs hw).bind fun yes s₁ h₁ => ?_
    have hw₁ := h₁.weight_le
    refine (GainAt.expect (by decide) _ s₁).safeAt.bind fun _ s₂ h₂ => ?_
    have hw₂ := h₂.weight_le
    have hs₂ := h₂.sound (h₁.sound hs)
    exact (hx _ s₂ hs₂ (by omega)).bind fun _ s₃ _ => SafeAt.pure _ s₃

theorem extended_safeAt (hx : SafeBelow n expr) (power fuel : Nat) :
    ∀ lhs (s : ReadState), s.Sound → s.weight ≤ n → s.weight < fuel →
      SafeAt (extended expr power fuel lhs) s := by
  induction fuel with
  | zero => intro _ s _ _ h; omega
  | succ fuel ih =>
    intro lhs s hs hw hf
    have next : ∀ whole s₁, s₁.Sound → s₁.weight < s.weight →
        SafeAt (extended expr power fuel whole) s₁ := fun whole s₁ hs₁ hw₁ =>
      ih whole s₁ hs₁ (by omega) (by omega)
    unfold extended
    refine .state ?_
    simp only []
    split
    · next hc =>
      refine ((callArguments_onwardAt hx hs (by rw [hc]; decide) hw).bind fun _ s₁ h₁ => ?_).safeAt
      exact next _ s₁ (h₁.1.sound hs) h₁.weight_lt
    iterate 2
      · next hc =>
        refine SafeAt.advanceThen hs (by rw [hc]; decide) fun _ s₁ hs₁ hw₁ => ?_
        refine (GainAt.identifier _ s₁).safeAt.bind fun _ s₂ h₂ => ?_
        exact next _ s₂ (h₂.sound hs₁) (Nat.lt_of_le_of_lt h₂.weight_le hw₁)
    · next hc =>
      refine SafeAt.advanceThen hs (by rw [hc]; decide) fun _ s₁ hs₁ hw₁ => ?_
      refine (hx 0 s₁ hs₁ (by omega)).bind fun _ s₂ h₂ => ?_
      have hs₂ := h₂.sound hs₁
      refine (GainAt.expect (by decide) _ s₂).safeAt.bind fun _ s₃ h₃ => ?_
      exact next _ s₃ (h₃.sound hs₂) (by have := h₂.weight_le; have := h₃.weight_le; omega)
    · cases hj : jointOf? s.current with
      | none => exact SafeAt.pure _ s
      | some joint =>
        have hc : s.current ≠ .endOfFile := by
          intro h
          rw [h] at hj
          cases hj
        refine .ite (fun _ => SafeAt.pure _ s) fun _ => ?_
        refine SafeAt.advanceThen hs hc fun _ s₁ hs₁ hw₁ => ?_
        refine (joined_safeAt hx joint lhs hs₁ (by omega)).bind fun _ s₂ h₂ => ?_
        exact next _ s₂ (h₂.sound hs₁) (Nat.lt_of_le_of_lt h₂.weight_le hw₁)

end Parts

/-! ## Whole expressions -/

theorem expressionFrom_safeBelow (fuel : Nat) : SafeBelow fuel (expressionFrom fuel) := by
  induction fuel with
  | zero => intro _ s _ h; omega
  | succ fuel ih =>
    intro power s hs hw
    unfold expressionFrom
    have hw' := Nat.le_of_lt_succ hw
    refine (operand_safeAt ih hs hw').bind fun first s₁ h₁ => .state ?_
    exact extended_safeAt ih power _ first s₁ (h₁.sound hs)
      (Nat.le_trans h₁.weight_le hw') (Nat.lt_succ_self _)

theorem expression_safeAt {s : ReadState} (hs : s.Sound) : SafeAt expression s := by
  unfold expression
  exact .state (expressionFrom_safeBelow _ 0 s hs (Nat.lt_succ_self _))

end HeaderBridge.Grammar
