/-
  Every rule of the grammar of headers keeps to a course. A rule that builds a node stands before
  a token that it reads first, so the node is never empty: the directive of a declaration or a
  property, the sign of a method, the bracket of a list.
-/
import HeaderBridge.Objc.Grammar.Header
import HeaderBridge.Proofs.Totality.Header
import HeaderBridge.Proofs.Tree.Course

namespace HeaderBridge.Grammar

open Rule

variable {s s' : ReadState}

/-! ## Types -/

theorem qualifiers_courseAt (s : ReadState) : CourseAt qualifiers s := by
  unfold qualifiers CourseAt
  simp only [ends_bind, ends_state, ends_modify, ends_pure]
  exact .of_reads (.readWhile _ s)

theorem baseName_courseAt (s : ReadState) : CourseAt baseName s := by
  unfold baseName
  refine (CourseAt.identifier _ s).bind fun first s₁ => .state ?_
  refine CourseAt.bind (CourseAt.modify ?_) fun _ s₂ => CourseAt.pure _ s₂
  exact .of_reads (.foldl_advance _ s₁)

theorem stars_courseAt (fuel : Nat) :
    ∀ type found (s : ReadState), CourseAt (stars fuel type found) s := by
  induction fuel with
  | zero => intro _ _ s; exact CourseAt.breakWith _ s
  | succ fuel ih =>
    intro type found s
    unfold stars
    refine (CourseAt.eat _ s).bind fun star s₁ => .ite (fun _ => ?_) fun _ => CourseAt.pure _ s₁
    exact (qualifiers_courseAt s₁).bind fun behind s₂ => ih _ _ s₂

theorem objcType_courseAt (fuel : Nat) : ∀ s : ReadState, CourseAt (objcType fuel) s := by
  induction fuel with
  | zero => exact CourseAt.breakWith _
  | succ fuel ih =>
    intro s
    unfold objcType
    have hnext : ∀ type s, CourseAt (do
        let type ← pure type
        stars ((← state).weight + 1) type none) s := fun type s =>
      (CourseAt.pure type s).bind fun type s₁ => .state (stars_courseAt _ type none s₁)
    refine (baseName_courseAt s).bind fun name s₁ => .state ?_
    refine .ite (fun _ => .ite (fun _ => ?_) fun _ => ?_) fun _ => hnext _ s₁
    · exact (CourseAt.list (by decide) (by decide)
        (fun s => (CourseAt.identifier _ s).map _) s₁).bind fun _ s₂ => hnext _ s₂
    · refine (CourseAt.list (by decide) (by decide) (fun s => ?_) s₁).bind fun _ s₂ => hnext _ s₂
      exact (qualifiers_courseAt s).bind fun _ s₂ => (ih s₂).bind fun _ s₃ => CourseAt.pure _ s₃

theorem failingAs_courseAt {α : Type} {cause : SyntaxError.Cause} {r : Rule α}
    (h : CourseAt r s) : CourseAt (failingAs cause r) s := by
  unfold CourseAt Ends at h ⊢
  unfold failingAs
  cases hr : r s with
  | done a s' => rw [hr] at h; exact h
  | failed e s' =>
    rw [hr] at h
    obtain ⟨hcourse, _, rfl⟩ := h
    exact ⟨hcourse, s'.errorHere_isAt cause⟩
  | broken f => trivial

theorem typeName_courseAt (s : ReadState) : CourseAt typeName s := by
  unfold typeName
  refine .state ((qualifiers_courseAt s).bind fun inFront s₁ => .state ?_)
  refine (failingAs_courseAt (objcType_courseAt _ s₁)).bind fun found s₂ => .state ?_
  obtain ⟨type, behind⟩ := found
  simp only []
  split
  · exact CourseAt.pure _ s₂
  · exact CourseAt.breakWith _ s₂

/-! ## Properties -/

theorem propertyModifier_courseAt (s : ReadState) : CourseAt propertyModifier s := by
  unfold propertyModifier CourseAt
  refine ends_bind.mpr (ends_identifier.mpr ⟨fun hc => ?_, fun _ =>
    ⟨.refl s, s.errorHere_isAt _⟩⟩)
  obtain ⟨t, rest, ht, _⟩ := ReadState.exists_cons_of_current hc (by decide)
  -- Whatever was read behind the name, the leaf covers it.
  have last : ∀ m s₁, s.advance.Reads s₁ → Ends True (leafFrom (.modifier m) t.span.start) s₁
      (fun _ s' => Course s s') (fun e s' => Course s s' ∧ e.IsAt s') := fun m s₁ h₁ =>
    course_of_moving (moving_leafFrom ht h₁ _)
  have hadv := Course.advance s
  simp only [ReadState.currentSpan_of_cons ht, ends_bind, ends_eat, ends_ite, ends_identifier,
    ends_pure]
  refine ⟨fun _ => ⟨fun _ => ⟨fun _ => ?_, fun _ => ?_⟩, ?_⟩, fun _ => ⟨?_, fun _ => ?_⟩⟩
  · refine ⟨fun _ => last _ _ ?_, fun _ => last _ _ ?_⟩
    · exact .trans (.advance _) (.trans (.advance _) (.advance _))
    · exact .trans (.advance _) (.advance _)
  · exact ⟨hadv.trans (.advance _), ReadState.errorHere_isAt _ _⟩
  · intro h
    exact absurd trivial h
  · intro h
    cases h
  · exact last _ _ (.refl _)

theorem modifierList_courseAt (hc : s.current = .leftParen) : CourseAt modifierList s := by
  unfold modifierList
  have hlist : MovingAt (list true .leftParen .rightParen propertyModifier)
      { s with nodes := s.nodes.begin .modifierList } :=
    MovingAt.list (by decide) (by decide) hc propertyModifier_courseAt
  exact MovingAt.withNode (hlist.bind fun _ s' => CourseAt.pure () s')

theorem propertyName_courseAt (type : Slot TypeName) (s : ReadState) :
    CourseAt (propertyName type) s := by
  unfold propertyName
  refine .state (.ite (fun _ => ?_) fun _ => ?_)
  · exact CourseAt.bind (CourseAt.modify (.of_reads (.skipUntil _ s))) fun _ s' =>
      CourseAt.pure _ s'
  · exact CourseAt.recover (CourseAt.identifier _ s) _

theorem property_courseAt (hc : s.current = .atProperty) : CourseAt property s := by
  have hne : s.current ≠ .endOfFile := by rw [hc]; decide
  unfold property
  refine .state (MovingAt.withNode (.bind (.keywordHere hne) fun _ s₁ => .state ?_))
  have last : ∀ s₂, CourseAt (do
      let type ← recover typeName fun kind =>
        kind == .identifier || kind == .semicolon || isMemberSync kind
      let name ← propertyName type
      setKind (.property ⟨type, name, s.inOptional⟩)
      if (type.isInvalid || name.isInvalid) && (← Rule.state).current != .semicolon then return
      punctuation .semicolon .propertyEnd) s₂ := fun s₂ =>
    (CourseAt.recover (typeName_courseAt s₂) _).bind fun type s₃ =>
      (propertyName_courseAt type s₃).bind fun name s₄ =>
      (CourseAt.setKind _ s₄).bind fun _ s₅ =>
      .state (.ite (fun _ => CourseAt.pure () s₅) fun _ => CourseAt.expectLeaf (by decide) _ _ s₅)
  refine .ite (fun hparen => ?_) fun _ => last s₁
  exact (modifierList_courseAt hparen).bind fun _ s₂ => last s₂

/-! ## Methods -/

theorem parenthesizedType_courseAt (s : ReadState) : CourseAt parenthesizedType s := by
  unfold parenthesizedType
  refine (CourseAt.advance s).bind fun _ s₁ => (typeName_courseAt s₁).bind fun type s₂ => ?_
  exact (CourseAt.expect _ _ s₂).bind fun _ s₃ => CourseAt.pure type s₃

theorem optionalType_courseAt (s : ReadState) : CourseAt optionalType s := by
  unfold optionalType
  exact .state (.ite (fun _ => (parenthesizedType_courseAt s).map some) fun _ =>
    CourseAt.pure none s)

theorem keywordParts_courseAt (fuel : Nat) :
    ∀ keyword read (s : ReadState), CourseAt (keywordParts fuel keyword read) s := by
  induction fuel with
  | zero => intro _ _ s; exact CourseAt.breakWith _ s
  | succ fuel ih =>
    intro keyword read s
    unfold keywordParts
    refine (CourseAt.advance s).bind fun _ s₁ => (optionalType_courseAt s₁).bind fun type s₂ => ?_
    refine (CourseAt.identifier _ s₂).bind fun name s₃ => .state (.ite (fun _ => ?_) fun _ => ?_)
    · exact (CourseAt.identifier _ s₃).bind fun next s₄ => ih _ _ s₄
    · exact .ite (fun _ => ih _ _ s₃) fun _ => CourseAt.pure _ s₃

theorem variadicMark_courseAt (s : ReadState) : CourseAt variadicMark s := by
  unfold variadicMark
  refine (CourseAt.eat _ s).bind fun found s₁ => .ite (fun _ => ?_) fun _ => CourseAt.pure () s₁
  exact CourseAt.modify (.of_reads (.readWhile _ s₁))

theorem selectorFrom_courseAt (first : Option Ident) (s : ReadState) :
    CourseAt (selectorFrom first) s := by
  refine .state (.ite (fun hc => ?_) fun _ => ?_)
  · exact (keywordParts_courseAt _ first #[] s).bind fun parts s₁ =>
      (variadicMark_courseAt s₁).bind fun _ s₂ => CourseAt.pure _ s₂
  · cases first with
    | some name => exact CourseAt.pure _ s
    | none => exact ⟨Course.refl s, s.errorHere_isAt _⟩

theorem selector_courseAt (s : ReadState) : CourseAt selector s := by
  unfold selector
  refine .state (.ite (fun _ => ?_) fun _ => ?_)
  · exact ((CourseAt.identifier _ s).map some).bind selectorFrom_courseAt
  · exact (CourseAt.pure none s).bind selectorFrom_courseAt

theorem method_courseAt (hc : s.current ≠ .endOfFile) : CourseAt method s := by
  unfold method
  refine .state (MovingAt.withNode (.bind (.punctuationHere hc) fun _ s₁ => ?_))
  refine (optionalType_courseAt s₁).bind fun returns s₂ => ?_
  refine (selector_courseAt s₂).bind fun found s₃ => (CourseAt.setKind _ s₃).bind fun _ s₄ => ?_
  refine CourseAt.bind (CourseAt.modify (.of_reads (reads_readAttributes _ s₄))) fun _ s₅ => ?_
  exact CourseAt.expectLeaf (by decide) _ _ s₅

/-! ## Bodies -/

theorem recoverMember_courseAt {r : Rule Unit} (h : CourseAt r s) :
    CourseAt (recoverMember r) s := by
  have hk := h
  unfold CourseAt Ends recoverMember
  unfold CourseAt Ends at hk
  cases hr : r s with
  | done a s' => rw [hr] at hk; exact hk
  | failed e s' =>
    rw [hr] at hk
    exact (hk.1.trans (.report hk.2)).trans (.of_reads (.skipUntil _ _))
  | broken f => trivial

theorem unknownMember_courseAt (cause : SyntaxError.Cause) (hc : s.current ≠ .endOfFile) :
    CourseAt (unknownMember cause) s := by
  unfold unknownMember
  refine .state ?_
  obtain ⟨t, rest, ht, _⟩ := ReadState.exists_cons_of_current rfl hc
  have hreport := Course.report (s.errorHere_isAt cause)
  generalize s.errorHere cause = e at hreport ⊢
  have hrest : (s.report e).rest = t :: rest := by
    rw [← ht]
    unfold ReadState.report
    split <;> rfl
  -- The leaf starts at the first token, wherever the reading behind it ends.
  have last : ∀ s₁, (s.report e).advance.Reads s₁ → Ends True (leafFrom .invalid t.span.start) s₁
      (fun _ s' => Course s s') (fun e s' => Course s s' ∧ e.IsAt s') := fun s₁ h₁ =>
    (moving_leafFrom hrest h₁ _).mono (fun _ _ h => hreport.trans h.1) fun _ _ h =>
      h.imp_left fun h => hreport.trans h.1
  unfold CourseAt
  simp only [ends_bind, ends_report, ends_advance, ends_modify, ends_eat,
    ReadState.currentSpan_of_cons hrest]
  have hread := ReadState.Reads.readWhile
    (fun ts => !startsMember ts && ReadState.kindOf ts != .semicolon) (s.report e).advance
  exact ⟨fun _ => last _ (hread.trans (.advance _)), fun _ => last _ hread⟩

theorem memberList_courseAt (cause : SyntaxError.Cause) (inProtocol : Bool) (fuel : Nat) :
    ∀ s : ReadState, CourseAt (memberList cause inProtocol fuel) s := by
  induction fuel with
  | zero => exact CourseAt.breakWith _
  | succ fuel ih =>
    intro s
    have round : ∀ {r : Rule Unit}, CourseAt r s → CourseAt (do
        let _ ← r
        memberList cause inProtocol fuel) s := fun h => h.bind fun _ s₁ => ih s₁
    unfold memberList
    refine .state ?_
    simp only []
    refine .ite (fun _ => CourseAt.pure () s) fun hbody => ?_
    have hne : s.current ≠ .endOfFile := by
      intro h
      rw [h] at hbody
      exact hbody rfl
    have enter : ∀ inOptional : Bool, CourseAt (do
        modify fun s => { s with inOptional }
        let _ ← keywordHere
        memberList cause inProtocol fuel) s := fun inOptional => by
      have hkey : MovingAt keywordHere { s with inOptional } := .keywordHere hne
      have hnext := (hkey.bind fun _ s₁ => ih s₁).courseAt
      exact ends_bind.mpr (ends_modify.mpr (hnext.from (.enter s inOptional)))
    split
    · next hc => exact round (recoverMember_courseAt (property_courseAt hc))
    · exact round (recoverMember_courseAt (method_courseAt hne))
    · exact round (recoverMember_courseAt (method_courseAt hne))
    · exact .ite (fun _ => enter _) fun _ => round (unknownMember_courseAt cause hne)
    · exact .ite (fun _ => enter _) fun _ => round (unknownMember_courseAt cause hne)
    · exact round (unknownMember_courseAt cause hne)

theorem body_courseAt (cause : SyntaxError.Cause) (inProtocol : Bool) (s : ReadState) :
    CourseAt (body cause inProtocol) s := by
  unfold body
  refine .state ((memberList_courseAt cause inProtocol _ s).bind fun _ s₁ => ?_)
  exact CourseAt.modify (.enter s₁ false)

/-! ## Declarations -/

theorem protocolList_courseAt (hc : s.current = .less) : CourseAt protocolList s := by
  unfold protocolList
  have hlist : MovingAt (list true .less .greater (identifier .conformance))
      { s with nodes := s.nodes.begin (.protocolList []) } :=
    MovingAt.list (by decide) (by decide) hc fun s => CourseAt.identifier _ s
  exact MovingAt.withNode (hlist.bind fun names s₁ => CourseAt.setKind _ s₁)

theorem skipThenEat_courseAt (stop : TokenKind → Bool) (kind : TokenKind) {e : SyntaxError}
    (he : e.IsAt s) : Ends True (do let _ ← eat kind) ((s.report e).skipUntil stop)
      (fun _ s' => Course s s') (fun e' s' => Course s s' ∧ e'.IsAt s') := by
  have hskip : Course s ((s.report e).skipUntil stop) :=
    (Course.report he).trans (.of_reads (.skipUntil stop _))
  exact ((CourseAt.eat kind _).bind fun _ s' => CourseAt.pure () s').from hskip

theorem optionalProtocolList_courseAt (s : ReadState) : CourseAt optionalProtocolList s := by
  unfold CourseAt Ends optionalProtocolList
  by_cases hc : s.current = .less
  · have hk := protocolList_courseAt hc
    unfold CourseAt Ends at hk
    rw [if_pos hc]
    cases hr : protocolList s with
    | done a s' => rw [hr] at hk; exact hk
    | failed e s' =>
      rw [hr] at hk
      exact (skipThenEat_courseAt _ .greater hk.2).mono (fun _ _ h => hk.1.trans h)
        fun _ _ h => h.imp_left hk.1.trans
    | broken f => trivial
  · rw [if_neg hc]
    exact .refl s

theorem optionalSuperclass_courseAt (s : ReadState) : CourseAt optionalSuperclass s := by
  unfold optionalSuperclass
  refine .state (.ite (fun hc => ?_) fun _ => CourseAt.pure () s)
  have hne : s.current ≠ .endOfFile := by rw [hc]; decide
  refine (MovingAt.punctuationHere hne).courseAt.bind fun _ s₁ => ?_
  refine ends_bind.mpr (ends_identifier.mpr ⟨fun hname => ?_, fun _ =>
    ⟨.refl s₁, s₁.errorHere_isAt _⟩⟩)
  exact course_of_moving (moving_advance_leaf (by rw [hname]; decide) _)

theorem variableBlock_courseAt (s : ReadState) : CourseAt variableBlock s := by
  unfold variableBlock
  refine CourseAt.modify ?_
  split
  · exact .of_reads (.skipGroup _ _ s)
  · exact .refl s

theorem keyword_courseAt {kind : TokenKind} (hk : kind ≠ .endOfFile) (cause : SyntaxError.Cause)
    (s : ReadState) : CourseAt (keyword kind cause) s := CourseAt.expectLeaf hk cause _ s

theorem classInterface_courseAt (hc : s.current ≠ .endOfFile) : CourseAt classInterface s := by
  unfold classInterface
  refine MovingAt.withNode (.bind (.keywordHere hc) fun _ s₁ => ?_)
  refine (CourseAt.identifier _ s₁).bind fun name s₂ => (CourseAt.setKind _ s₂).bind fun _ s₃ => ?_
  refine (optionalSuperclass_courseAt s₃).bind fun _ s₄ => ?_
  refine (optionalProtocolList_courseAt s₄).bind fun _ s₅ => ?_
  refine (variableBlock_courseAt s₅).bind fun _ s₆ => (body_courseAt _ _ s₆).bind fun _ s₇ => ?_
  exact keyword_courseAt (by decide) _ s₇

theorem protocolDeclaration_courseAt (hc : s.current ≠ .endOfFile) :
    CourseAt protocolDeclaration s := by
  unfold protocolDeclaration
  refine MovingAt.withNode (.bind (.keywordHere hc) fun _ s₁ => ?_)
  refine (CourseAt.identifier _ s₁).bind fun name s₂ => (CourseAt.setKind _ s₂).bind fun _ s₃ => ?_
  refine (optionalProtocolList_courseAt s₃).bind fun _ s₄ => ?_
  refine (body_courseAt _ _ s₄).bind fun _ s₅ => ?_
  exact keyword_courseAt (by decide) _ s₅

theorem recoverDeclaration_courseAt {r : Rule Unit} (h : CourseAt r s) :
    CourseAt (recoverDeclaration r) s := by
  have hk := h
  unfold CourseAt Ends at hk
  unfold CourseAt Ends recoverDeclaration
  cases hr : r s with
  | done a s' => rw [hr] at hk; exact hk
  | failed e s' =>
    rw [hr] at hk
    exact (skipThenEat_courseAt endsBody .atEnd hk.2).mono (fun _ _ h => hk.1.trans h)
      fun _ _ h => h.imp_left hk.1.trans
  | broken f => trivial

theorem skipUntilThenEat_courseAt (stop : TokenKind → Bool) (kind : TokenKind) (s : ReadState) :
    CourseAt (do
      modify (·.skipUntil stop)
      let _ ← eat kind) s :=
  CourseAt.bind (CourseAt.modify (.of_reads (.skipUntil stop s))) fun _ s₁ =>
    (CourseAt.eat kind s₁).bind fun _ s₂ => CourseAt.pure () s₂

theorem declarations_courseAt (fuel : Nat) :
    ∀ s : ReadState, CourseAt (declarations fuel) s := by
  induction fuel with
  | zero => exact CourseAt.breakWith _
  | succ fuel ih =>
    intro s
    have round : ∀ {α : Type} {r : Rule α}, CourseAt r s → CourseAt (do
        let _ ← r
        declarations fuel) s := fun h => h.bind fun _ s₁ => ih s₁
    unfold declarations
    refine .state ?_
    simp only []
    split
    · exact CourseAt.pure () s
    · next hc =>
      exact round (recoverDeclaration_courseAt (classInterface_courseAt (by rw [hc]; decide)))
    · next hc =>
      refine .ite (fun _ => round (skipUntilThenEat_courseAt _ _ s)) fun _ => ?_
      exact round (recoverDeclaration_courseAt (protocolDeclaration_courseAt (by rw [hc]; decide)))
    · exact round (skipUntilThenEat_courseAt _ _ s)
    · exact round (skipUntilThenEat_courseAt _ _ s)
    · exact round (CourseAt.advance s)

/-- Reading a header keeps to a course. -/
theorem header_courseAt (s : ReadState) : CourseAt header s := by
  unfold header
  exact .state (declarations_courseAt _ s)

end HeaderBridge.Grammar
