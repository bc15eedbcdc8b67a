/-
  The rules for headers do not break, and reading the declarations of a header does not fail
  either. A broken declaration has read at least the directive that it starts with, a broken
  member its sign or directive, and an unknown member its first token, so that every loop comes
  closer to the end of the file whatever stands there.
-/
import HeaderBridge.Objc.Grammar.Header
import HeaderBridge.Proofs.Totality.Types

namespace HeaderBridge.Grammar

open Rule

variable {s s' : ReadState}

theorem setKind_safeAt (kind : NodeKind) (s : ReadState) : SafeAt (setKind kind) s :=
  SafeAt.modify (.setKind s kind)

/-- A leaf from a token to where reading came behind it. -/
theorem ends_leafFrom_of_reads {t : Token} {rest : List Token} (hs : s.Sound)
    (ht : s.rest = t :: rest) (hr : s.advance.Reads s') (kind : NodeKind) :
    Ends False (leafFrom kind t.span.start) s' (fun _ s'' => Onward s s'')
      (fun _ s'' => Onward s s'') := by
  rw [ReadState.advance_of_cons ht] at hr
  obtain ⟨front, rest', he, rfl⟩ := hr
  rw [ReadState.past_rest] at he
  rw [ReadState.past_past]
  have hr' : s.rest = t :: front ++ rest' := by rw [ht, he]; rfl
  exact onward_leafFrom hs hr' kind

/-- Passing over tokens reads at least the first, if the test allows that. -/
theorem onward_readWhile {go : List Token → Bool} {t : Token} {rest : List Token}
    (ht : s.rest = t :: rest) (hgo : go (t :: rest) = true) : Onward s (s.readWhile go) := by
  obtain ⟨front, rest', hr, he, _, hstop⟩ := ReadState.Reads.readWhile_spec go s
  refine ⟨.of_reads ⟨front, rest', hr, he⟩, ?_⟩
  rw [he, ReadState.past_position]
  cases front with
  | nil =>
    rw [List.nil_append] at hr
    rw [← hr, ht, hgo] at hstop
    rcases hstop with h | h
    · cases h
    · cases h
  | cons u front => simp only [List.length_cons]; omega

/-! ## Properties -/

theorem propertyModifier_safeAt (hs : s.Sound) : SafeAt propertyModifier s := by
  unfold propertyModifier SafeAt
  rw [ends_bind]
  refine ends_identifier.mpr ⟨fun hc => ?_, fun _ => .refl s⟩
  obtain ⟨t, rest, ht, _⟩ := ReadState.exists_cons_of_current hc (by decide)
  have hspan : s.currentSpan.start = t.span.start := by rw [ReadState.currentSpan_of_cons ht]
  -- Whatever was read behind the name, the leaf covers it.
  have last : ∀ m s₁, s.advance.Reads s₁ → Ends False
      (leafFrom (.modifier m) t.span.start) s₁ (fun _ s' => Passage s s')
      (fun _ s' => Passage s s') := fun m s₁ h₁ =>
    (ends_leafFrom_of_reads hs ht h₁ _).mono (fun _ _ h => h.1) fun _ _ h => h.1
  have hadv : Passage s s.advance := .advance s
  simp only [hspan, ends_bind, ends_eat, ends_ite, ends_identifier, ends_pure]
  refine ⟨fun _ => ⟨fun _ => ⟨fun _ => ?_, fun _ => ?_⟩, ?_⟩, fun _ => ⟨?_, fun _ => ?_⟩⟩
  · refine ⟨fun _ => last _ _ ?_, fun _ => last _ _ ?_⟩
    · exact .trans (.advance _) (.trans (.advance _) (.advance _))
    · exact .trans (.advance _) (.advance _)
  · exact hadv.trans (.advance _)
  · intro h
    exact absurd trivial h
  · intro h
    cases h
  · exact last _ _ (.refl _)

theorem modifierList_safeAt (hs : s.Sound) : SafeAt modifierList s := by
  unfold modifierList
  refine SafeAt.withNode hs ?_
  refine (GainAt.list (hs.begin _) (by decide) (by decide) fun s' hs' _ =>
    propertyModifier_safeAt hs').safeAt.bind fun _ s' _ => SafeAt.pure () s'

theorem propertyName_safeAt (type : Slot TypeName) (s : ReadState) :
    SafeAt (propertyName type) s := by
  unfold propertyName
  refine .state (.ite (fun _ => ?_) fun _ => ?_)
  · refine (SafeAt.modify (.of_reads (.skipUntil _ s))).bind fun _ s' _ => ?_
    exact SafeAt.pure _ s'
  · exact SafeAt.recover (GainAt.identifier _ s).safeAt _

theorem property_onwardAt (hs : s.Sound) (hc : s.current = .atProperty) :
    OnwardAt property s := by
  unfold property
  refine OnwardAt.state (OnwardAt.withNode hs ?_)
  have hs₀ := hs.begin (.property ⟨.missing, .missing, s.inOptional⟩)
  refine (OnwardAt.keywordHere hs₀ hc (by decide)).bind fun _ s₁ h₁ => .state ?_
  have hs₁ := h₁.1.sound hs₀
  have last : ∀ s₂, s₂.Sound → SafeAt (do
      let type ← recover typeName fun kind =>
        kind == .identifier || kind == .semicolon || isMemberSync kind
      let name ← propertyName type
      setKind (.property ⟨type, name, s.inOptional⟩)
      if (type.isInvalid || name.isInvalid) && (← Rule.state).current != .semicolon then return
      punctuation .semicolon .propertyEnd) s₂ := fun s₂ hs₂ => by
    refine (SafeAt.recover (typeName_gainAt hs₂).safeAt _).bind fun type s₃ h₃ => ?_
    refine (propertyName_safeAt type s₃).bind fun name s₄ h₄ => ?_
    refine (setKind_safeAt _ s₄).bind fun _ s₅ h₅ => .state (.ite (fun _ => ?_) fun _ => ?_)
    · exact SafeAt.pure () s₅
    · exact (GainAt.punctuation (((h₃.trans h₄).trans h₅).sound hs₂) (by decide) _).safeAt
  refine .ite (fun _ => ?_) fun _ => last s₁ hs₁
  exact (modifierList_safeAt hs₁).bind fun _ s₂ h₂ => last s₂ (h₂.sound hs₁)

/-! ## Methods -/

theorem parenthesizedType_safeAt (hs : s.Sound) : SafeAt parenthesizedType s := by
  unfold parenthesizedType
  refine (SafeAt.advance s).bind fun _ s₁ h₁ => ?_
  refine (typeName_gainAt (h₁.sound hs)).safeAt.bind fun type s₂ _ => ?_
  exact (GainAt.expect (by decide) _ s₂).safeAt.bind fun _ s₃ _ => SafeAt.pure type s₃

theorem optionalType_safeAt (hs : s.Sound) : SafeAt optionalType s := by
  unfold optionalType
  refine .state (.ite (fun _ => ?_) fun _ => SafeAt.pure none s)
  exact (parenthesizedType_safeAt hs).map some

theorem keywordParts_safeAt (fuel : Nat) :
    ∀ keyword read (s : ReadState), s.Sound → s.weight < fuel → s.current = .colon →
      SafeAt (keywordParts fuel keyword read) s := by
  induction fuel with
  | zero => intro _ _ s _ h; omega
  | succ fuel ih =>
    intro keyword read s hs hf hc
    unfold keywordParts
    refine SafeAt.advanceThen hs (by rw [hc]; decide) fun _ s₁ hs₁ hw₁ => ?_
    refine (optionalType_safeAt hs₁).bind fun type s₂ h₂ => ?_
    have hs₂ := h₂.sound hs₁
    refine (GainAt.identifier _ s₂).safeAt.bind fun name s₃ h₃ => .state ?_
    have hs₃ := h₃.sound hs₂
    have hw₃ := (h₂.trans h₃).weight_le
    refine .ite (fun hnext => ?_) fun _ => .ite (fun hcolon => ?_) fun _ => SafeAt.pure _ s₃
    · rw [Bool.and_eq_true, decide_eq_true_iff, decide_eq_true_iff] at hnext
      obtain ⟨hident, hcolon⟩ := hnext
      obtain ⟨t, rest, ht, _⟩ := ReadState.exists_cons_of_current hident (by decide)
      unfold SafeAt
      rw [ends_bind]
      refine ends_identifier.mpr ⟨fun _ => ?_, fun h => absurd hident h⟩
      have hp := Passage.advance s₃
      refine (ih _ _ _ (hp.sound hs₃) (by have := hp.weight_le; omega) ?_).from hp
      rw [ReadState.advance_of_cons ht]
      unfold ReadState.second at hcolon
      rwa [ht] at hcolon
    · exact ih _ _ s₃ hs₃ (by omega) hcolon

theorem variadicMark_safeAt (s : ReadState) : SafeAt variadicMark s := by
  unfold variadicMark
  refine (SafeAt.eat _ s).bind fun found s₁ _ => .ite (fun _ => ?_) fun _ => SafeAt.pure () s₁
  exact SafeAt.modify (.of_reads (.readWhile _ s₁))

theorem selectorFrom_safeAt (first : Option Ident) (hs : s.Sound) :
    SafeAt (selectorFrom first) s := by
  refine .state (.ite (fun hc => ?_) fun _ => ?_)
  · refine (keywordParts_safeAt _ first #[] s hs (Nat.lt_succ_self _) hc).bind fun parts s₁ _ => ?_
    exact (variadicMark_safeAt s₁).bind fun _ s₂ _ => SafeAt.pure _ s₂
  · cases first with
    | some name => exact SafeAt.pure _ s
    | none => exact SafeAt.failHere _ s

theorem selector_safeAt (hs : s.Sound) : SafeAt selector s := by
  unfold selector
  refine .state (.ite (fun _ => ?_) fun _ => ?_)
  · exact ((GainAt.identifier _ s).safeAt.map some).bind fun first s₁ h₁ =>
      selectorFrom_safeAt first (h₁.sound hs)
  · exact (SafeAt.pure none s).bind fun first s₁ h₁ => selectorFrom_safeAt first (h₁.sound hs)

theorem reads_readAttributes (fuel : Nat) (s : ReadState) : s.Reads (readAttributes fuel s) := by
  induction fuel generalizing s with
  | zero => exact .refl s
  | succ fuel ih =>
    unfold readAttributes
    split
    · refine (ReadState.Reads.advance s).trans (.trans ?_ (ih _))
      split
      · exact .skipGroup _ _ _
      · exact .refl _
    · exact .refl s

theorem method_onwardAt (hs : s.Sound) (hc : s.current = .plus ∨ s.current = .minus) :
    OnwardAt method s := by
  unfold method
  refine OnwardAt.state (OnwardAt.withNode hs ?_)
  have hs₀ := hs.begin (.method ⟨s.current == .plus, none, .missing, s.inOptional⟩)
  have hne : s.current ≠ .endOfFile := by
    rcases hc with h | h <;> rw [h] <;> decide
  refine (OnwardAt.punctuationHere hs₀ rfl hne).bind fun _ s₁ h₁ => ?_
  have hs₁ := h₁.1.sound hs₀
  refine (optionalType_safeAt hs₁).bind fun returns s₂ h₂ => ?_
  have hs₂ := h₂.sound hs₁
  refine (selector_safeAt hs₂).bind fun found s₃ h₃ => ?_
  refine (setKind_safeAt _ s₃).bind fun _ s₄ h₄ => ?_
  have hread : SafeAt (modify fun s => readAttributes s.weight s) s₄ :=
    SafeAt.modify (.of_reads (reads_readAttributes _ s₄))
  refine hread.bind fun _ s₅ h₅ => ?_
  exact (GainAt.punctuation (((h₃.trans h₄).trans h₅).sound hs₂) (by decide) _).safeAt

/-! ## Bodies -/

theorem recoverMember_onwardAt {r : Rule Unit} (h : OnwardAt r s) :
    OnwardAt (recoverMember r) s := by
  have hk := h
  unfold OnwardAt Ends recoverMember
  unfold OnwardAt Ends at hk
  cases hr : r s with
  | done a s' => rw [hr] at hk; exact hk
  | failed e s' =>
    rw [hr] at hk
    exact hk.trans_left ((Passage.report s' e).trans (.of_reads (.skipUntil _ _)))
  | broken f => rw [hr] at hk; exact hk.elim

theorem unknownMember_onwardAt (hs : s.Sound) (hc : s.current ≠ .endOfFile)
    (cause : SyntaxError.Cause) : OnwardAt (unknownMember cause) s := by
  unfold unknownMember
  refine OnwardAt.state ?_
  obtain ⟨t, rest, ht, _⟩ := ReadState.exists_cons_of_current rfl hc
  generalize s.errorHere cause = e
  have hp : Passage s (s.report e) := .report s e
  have hrest : (s.report e).rest = t :: rest := by
    rw [← ht]
    unfold ReadState.report
    split <;> rfl
  have hpos : (s.report e).position = s.position := by
    unfold ReadState.report
    split <;> rfl
  -- The leaf starts at the first token, wherever the reading behind it ends.
  have last : ∀ s₁, (s.report e).advance.Reads s₁ → Ends False
      (leafFrom .invalid t.span.start) s₁ (fun _ s' => Onward s s')
      (fun _ s' => Onward s s') := fun s₁ h₁ =>
    (ends_leafFrom_of_reads (hp.sound hs) hrest h₁ _).mono
      (fun _ _ h => .trans_right hp h) fun _ _ h => .trans_right hp h
  unfold OnwardAt
  simp only [ends_bind, ends_report, ends_advance, ends_modify, ends_eat,
    ReadState.currentSpan_of_cons hrest]
  have hread := ReadState.Reads.readWhile
    (fun ts => !startsMember ts && ReadState.kindOf ts != .semicolon) (s.report e).advance
  exact ⟨fun _ => last _ (hread.trans (.advance _)), fun _ => last _ hread⟩

theorem memberList_safeAt (cause : SyntaxError.Cause) (inProtocol : Bool) (fuel : Nat) :
    ∀ s : ReadState, s.Sound → s.weight < fuel → SafeAt (memberList cause inProtocol fuel) s := by
  induction fuel with
  | zero => intro s _ h; omega
  | succ fuel ih =>
    intro s hs hf
    -- A round of any kind reads something, and the rounds behind it are fewer.
    have round : ∀ {r : Rule Unit}, OnwardAt r s → SafeAt (do
        let _ ← r
        memberList cause inProtocol fuel) s := fun h =>
      (h.bind fun _ s₁ h₁ => by
        have hw₁ := h₁.weight_lt
        exact ih s₁ (h₁.1.sound hs) (by omega)).safeAt
    unfold memberList
    refine .state ?_
    simp only []
    refine .ite (fun _ => SafeAt.pure () s) fun hbody => ?_
    have hne : s.current ≠ .endOfFile := by
      intro h
      rw [h] at hbody
      exact hbody rfl
    have enter : ∀ inOptional : Bool, SafeAt (do
        modify fun s => { s with inOptional }
        let _ ← keywordHere
        memberList cause inProtocol fuel) s := fun inOptional => by
      have henter := Passage.enter s inOptional
      have hon : OnwardAt keywordHere { s with inOptional } :=
        OnwardAt.keywordHere (henter.sound hs) rfl hne
      refine ends_bind.mpr (ends_modify.mpr ((hon.bind fun _ s₁ h₁ => ?_).safeAt.from henter))
      have hw₁ : s₁.weight < s.weight := h₁.weight_lt
      exact ih s₁ (h₁.1.sound (henter.sound hs)) (by omega)
    split
    · next hc => exact round (recoverMember_onwardAt (property_onwardAt hs hc))
    · next hc => exact round (recoverMember_onwardAt (method_onwardAt hs (.inl hc)))
    · next hc => exact round (recoverMember_onwardAt (method_onwardAt hs (.inr hc)))
    · refine .ite (fun _ => enter _) fun _ => ?_
      exact round (unknownMember_onwardAt hs hne cause)
    · refine .ite (fun _ => enter _) fun _ => ?_
      exact round (unknownMember_onwardAt hs hne cause)
    · exact round (unknownMember_onwardAt hs hne cause)

theorem body_safeAt (hs : s.Sound) (cause : SyntaxError.Cause) (inProtocol : Bool) :
    SafeAt (body cause inProtocol) s := by
  unfold body
  refine .state ?_
  refine (memberList_safeAt cause inProtocol _ s hs (Nat.lt_succ_self _)).bind fun _ s₁ _ => ?_
  exact SafeAt.modify (.enter s₁ false)

/-! ## Declarations -/

theorem protocolList_safeAt (hs : s.Sound) : SafeAt protocolList s := by
  unfold protocolList
  refine SafeAt.withNode hs ?_
  refine (GainAt.list (hs.begin _) (by decide) (by decide) fun s' _ _ =>
    (GainAt.identifier _ s').safeAt).safeAt.bind fun names s₁ _ => ?_
  exact setKind_safeAt _ s₁

/-- Passing over tokens up to a kind, and over a token of another kind there. -/
theorem skipThenEat_safeAt (stop : TokenKind → Bool) (kind : TokenKind) (e : SyntaxError)
    (s : ReadState) : Ends False (do let _ ← eat kind) ((s.report e).skipUntil stop)
      (fun _ s' => Passage s s') fun _ _ => False := by
  have hp : Passage s ((s.report e).skipUntil stop) :=
    (Passage.report s e).trans (.of_reads (.skipUntil stop _))
  simp only [ends_bind, ends_eat, ends_pure]
  exact ⟨fun _ => hp.trans (.advance _), fun _ => hp⟩

theorem optionalProtocolList_safeAt (hs : s.Sound) : SafeAt optionalProtocolList s := by
  have hk := protocolList_safeAt hs
  unfold SafeAt Ends at hk
  unfold SafeAt Ends optionalProtocolList
  by_cases hc : s.current = .less
  · rw [if_pos hc]
    cases hr : protocolList s with
    | done a s' => rw [hr] at hk; exact hk
    | failed e s' =>
      rw [hr] at hk
      have hskip := skipThenEat_safeAt
        (fun kind => kind == .greater || isMemberSync kind) .greater e s'
      exact hskip.mono (fun _ _ h => hk.trans h) fun _ _ h => h.elim
    | broken f => rw [hr] at hk; exact hk.elim
  · rw [if_neg hc]
    exact .refl s

theorem optionalSuperclass_safeAt (hs : s.Sound) : SafeAt optionalSuperclass s := by
  unfold optionalSuperclass
  refine .state (.ite (fun hc => ?_) fun _ => SafeAt.pure () s)
  refine (OnwardAt.punctuationHere hs hc (by decide)).safeAt.bind fun _ s₁ h₁ => ?_
  have hs₁ := h₁.sound hs
  unfold SafeAt
  rw [ends_bind]
  refine ends_identifier.mpr ⟨fun hname => ?_, fun _ => .refl s₁⟩
  obtain ⟨t, rest, ht, _⟩ := ReadState.exists_cons_of_current hname (by decide)
  exact (onward_leafHere hs₁ ht _).mono (fun _ _ h => h.1) fun _ _ h => h.1

theorem variableBlock_safeAt (s : ReadState) : SafeAt variableBlock s := by
  unfold variableBlock
  refine SafeAt.modify ?_
  split
  · exact .of_reads (.skipGroup _ _ s)
  · exact .refl s

theorem classInterface_onwardAt (hs : s.Sound) (hc : s.current = .atInterface) :
    OnwardAt classInterface s := by
  unfold classInterface
  refine OnwardAt.withNode hs ?_
  have hs₀ := hs.begin (.classInterface .missing)
  refine (OnwardAt.keywordHere hs₀ hc (by decide)).bind fun _ s₁ h₁ => ?_
  have hs₁ := h₁.1.sound hs₀
  refine (GainAt.identifier _ s₁).safeAt.bind fun name s₂ h₂ => ?_
  refine (setKind_safeAt _ s₂).bind fun _ s₃ h₃ => ?_
  have hs₃ := (h₂.trans h₃).sound hs₁
  refine (optionalSuperclass_safeAt hs₃).bind fun _ s₄ h₄ => ?_
  have hs₄ := h₄.sound hs₃
  refine (optionalProtocolList_safeAt hs₄).bind fun _ s₅ h₅ => ?_
  refine (variableBlock_safeAt s₅).bind fun _ s₆ h₆ => ?_
  have hs₆ := (h₅.trans h₆).sound hs₄
  refine (body_safeAt hs₆ _ _).bind fun _ s₇ h₇ => ?_
  exact (GainAt.keyword (h₇.sound hs₆) (by decide) _).safeAt

theorem protocolDeclaration_onwardAt (hs : s.Sound) (hc : s.current = .atProtocol) :
    OnwardAt protocolDeclaration s := by
  unfold protocolDeclaration
  refine OnwardAt.withNode hs ?_
  have hs₀ := hs.begin (.protocolDeclaration .missing)
  refine (OnwardAt.keywordHere hs₀ hc (by decide)).bind fun _ s₁ h₁ => ?_
  have hs₁ := h₁.1.sound hs₀
  refine (GainAt.identifier _ s₁).safeAt.bind fun name s₂ h₂ => ?_
  refine (setKind_safeAt _ s₂).bind fun _ s₃ h₃ => ?_
  have hs₃ := (h₂.trans h₃).sound hs₁
  refine (optionalProtocolList_safeAt hs₃).bind fun _ s₄ h₄ => ?_
  have hs₄ := h₄.sound hs₃
  refine (body_safeAt hs₄ _ _).bind fun _ s₅ h₅ => ?_
  exact (GainAt.keyword (h₅.sound hs₄) (by decide) _).safeAt

/-- From this state the rule does not break and does not fail. -/
def SucceedsAt (r : Rule Unit) (s : ReadState) : Prop :=
  Ends False r s (fun _ s' => Passage s s') fun _ _ => False

/-- The same, with a token read. -/
def OvercomesAt {α : Type} (r : Rule α) (s : ReadState) : Prop :=
  Ends False r s (fun _ s' => Onward s s') fun _ _ => False

theorem recoverDeclaration_overcomesAt {r : Rule Unit} (h : OnwardAt r s) :
    OvercomesAt (recoverDeclaration r) s := by
  have hk := h
  unfold OnwardAt Ends at hk
  unfold OvercomesAt Ends recoverDeclaration
  cases hr : r s with
  | done a s' => rw [hr] at hk; exact hk
  | failed e s' =>
    rw [hr] at hk
    exact (skipThenEat_safeAt endsBody .atEnd e s').mono (fun _ _ h => hk.trans_left h)
      fun _ _ h => h
  | broken f => rw [hr] at hk; exact hk.elim

/-- Passing over tokens from one that does not end this, and over a token behind them. -/
theorem skipUntil_overcomesAt {stop : TokenKind → Bool} (hc : s.current ≠ .endOfFile)
    (hstop : stop s.current = false) (kind : TokenKind) :
    OvercomesAt (do
      modify (·.skipUntil stop)
      let _ ← eat kind) s := by
  obtain ⟨t, rest, ht, hk⟩ := ReadState.exists_cons_of_current rfl hc
  have hon : Onward s (s.skipUntil stop) := by
    refine onward_readWhile ht ?_
    rw [ReadState.kindOf_cons, hk, hstop]
    rfl
  unfold OvercomesAt
  simp only [ends_bind, ends_modify, ends_eat, ends_pure]
  exact ⟨fun _ => hon.trans_left (.advance _), fun _ => hon⟩

theorem declarations_succeedsAt (fuel : Nat) :
    ∀ s : ReadState, s.Sound → s.weight < fuel → SucceedsAt (declarations fuel) s := by
  induction fuel with
  | zero => intro s _ h; omega
  | succ fuel ih =>
    intro s hs hf
    have round : ∀ {α : Type} {r : Rule α}, OvercomesAt r s → SucceedsAt (do
        let _ ← r
        declarations fuel) s := fun h =>
      ends_bind.mpr (h.mono (fun _ s₁ h₁ => by
        have hw₁ := h₁.weight_lt
        exact (ih s₁ (h₁.1.sound hs) (by omega)).mono (fun _ _ h => h₁.1.trans h) fun _ _ h => h)
        fun _ _ h => h)
    unfold declarations SucceedsAt
    refine ends_bind.mpr (ends_state.mpr ?_)
    simp only []
    split
    · exact .refl s
    · next hc => exact round (recoverDeclaration_overcomesAt (classInterface_onwardAt hs hc))
    · next hc =>
      refine ends_ite.mpr ⟨fun _ => ?_, fun _ => ?_⟩
      · exact round (skipUntil_overcomesAt (by rw [hc]; decide) (by rw [hc]; decide) _)
      · exact round (recoverDeclaration_overcomesAt (protocolDeclaration_onwardAt hs hc))
    · next hc => exact round (skipUntil_overcomesAt (by rw [hc]; decide) (by rw [hc]; decide) _)
    · next hc => exact round (skipUntil_overcomesAt (by rw [hc]; decide) (by rw [hc]; decide) _)
    · next hc _ _ _ _ =>
      refine round ?_
      have hon := Passage.onward_advance rfl hc
      unfold OvercomesAt
      exact ends_advance.mpr hon

/-- Reading the declarations of a header always comes to the end. -/
theorem header_succeedsAt (hs : s.Sound) : SucceedsAt header s := by
  unfold header SucceedsAt
  refine ends_bind.mpr (ends_state.mpr ?_)
  exact declarations_succeedsAt _ s hs (Nat.lt_succ_self _)

end HeaderBridge.Grammar
