/-
  Every rule of the grammar of headers is framed in front of an opening delimiter: what it reads there
  without an error does not depend on what the list holds that is opened. Rules that note an error
  whatever they read, such as the one for unknown members, are framed for want of such a reading.
-/
import HeaderBridge.Proofs.Recovery.Bodies
import HeaderBridge.Proofs.Trailing.Framing

namespace HeaderBridge.Grammar

open ReadState (kindOf)
open Rule

variable {view : View}

/-! ## Types -/

theorem qualifiers_framesAt (s : ReadState) : FramesAt ahead qualifiers qualifiers s := by
  have hrun : ∀ s, qualifiers s = .done (lastNullability (s.rest.take
      ((s.readWhile startsWithQualifier).position - s.position))) (s.readWhile startsWithQualifier) :=
    fun _ => rfl
  refine ⟨keeping_of_agreeAt (qualifiers_agreeAt s s), fun {a t q w} hneat hrest hsees _ => ?_⟩
  have hdone := hneat.done
  rw [hrun] at hdone
  cases hdone
  have hgo : FramesAt.SeesFirst startsWithQualifier := fun _ _ _ => rfl
  obtain ⟨front, hs, he, hother⟩ := FramesAt.readWhile_onto hgo hrest hsees
  refine ⟨front ++ q, by rw [hs, List.append_assoc], hsees.append front, fun w' o _ => Or.inr ?_⟩
  rw [hrun, List.append_assoc, hother, he, ReadState.onto_position, ReadState.past_position,
    ReadState.onto_position, Nat.add_sub_cancel, ReadState.onto_rest, List.take_left, hs,
    List.take_left]

/-- The words that go on a name are the same in front of anything. -/
theorem nameWords_onto {q w : List Token} (hsees : OpensAhead q) (ts : List Token) : ∀ last,
    ts.drop (nameWords last ts).length = q ++ w → ∃ front, ts = front ++ (q ++ w) ∧
      (nameWords last ts).length = front.length ∧
      ∀ w', nameWords last (front ++ (q ++ w')) = nameWords last ts := by
  induction ts with
  | nil =>
    intro last h
    obtain ⟨_, ht, _⟩ := hsees
    rw [(List.append_eq_nil_iff.mp (List.drop_nil.symm.trans h).symm).1] at ht
    cases ht
  | cons t ts ih =>
    intro last h
    unfold nameWords at h ⊢
    split
    · next hword =>
      rw [if_pos hword, List.length_cons, List.drop_succ_cons] at h
      obtain ⟨front, rfl, hlength, hwords⟩ := ih t.text h
      refine ⟨t :: front, rfl, congrArg Nat.succ hlength, fun w' => ?_⟩
      simp only [List.cons_append]
      rw [if_pos hword, hwords]
    · next hword =>
      rw [if_neg hword, List.length_nil, List.drop_zero] at h
      obtain ⟨u, us, rfl⟩ := hsees.exists_cons
      obtain ⟨rfl, _⟩ := List.cons.inj h
      refine ⟨[], h, rfl, fun w' => ?_⟩
      simp only [List.nil_append, List.cons_append]
      rw [if_neg hword]

theorem rest_foldl_advance {α : Type} (words : List α) (s : ReadState) :
    (words.foldl (fun s _ => s.advance) s).rest = s.rest.drop words.length := by
  induction words generalizing s with
  | nil => rfl
  | cons word words ih =>
    rw [List.foldl_cons, ih, ReadState.rest_advance, List.drop_drop, Nat.add_comm]
    rfl

theorem baseName_framesAt (s : ReadState) : FramesAt ahead baseName baseName s := by
  refine (FramesAt.identifier _ s).bind fun first t => ?_
  have hrun : ∀ t : ReadState, (do
      let words := nameWords first.name (← Rule.state).rest
      modify fun s => words.foldl (fun s _ => s.advance) s
      return " ".intercalate (first.name :: words) : Rule String) t =
        .done (" ".intercalate (first.name :: nameWords first.name t.rest))
          ((nameWords first.name t.rest).foldl (fun s _ => s.advance) t) := fun _ => rfl
  refine ⟨?_, fun {a u q w} hneat hrest hsees _ => ?_⟩
  · show Keeps t _
    exact .of_reads (.foldl_advance _ t)
  · have hdone := hneat.done
    rw [hrun] at hdone
    cases hdone
    rw [rest_foldl_advance] at hrest
    obtain ⟨front, ht, hlength, hwords⟩ := nameWords_onto hsees t.rest first.name hrest
    refine ⟨front ++ q, by rw [ht, List.append_assoc], hsees.append front, fun w' o _ => Or.inr ?_⟩
    rw [hrun, List.append_assoc, ReadState.onto_rest, hwords,
      foldl_advance (s := t.onto (front ++ (q ++ w')) o) rfl hlength, foldl_advance ht hlength]
    rfl

theorem stars_framesAt (fuel : Nat) : ∀ fuel' type found (s : ReadState),
    FramesAt ahead (stars fuel type found) (stars fuel' type found) s := by
  induction fuel with
  | zero => intro _ _ _ s; exact .breakWith _ _ s
  | succ fuel ih =>
    intro fuel' type found s
    apply FramesAt.onFuel fuel'
    · rfl
    intro fuel'
    unfold stars
    refine (FramesAt.eat (by decide) (tells_ahead _) s).bind fun star s₁ => ?_
    refine .ite Iff.rfl (fun _ => ?_) fun _ => .pure _ s₁
    exact (qualifiers_framesAt s₁).bind fun behind s₂ => ih fuel' _ _ s₂

theorem objcType_framesAt (fuel : Nat) : ∀ fuel' (s : ReadState),
    FramesAt ahead (objcType fuel) (objcType fuel') s := by
  induction fuel with
  | zero => intro _ s; exact .breakWith _ _ s
  | succ fuel ih =>
    intro fuel' s
    apply FramesAt.onFuel fuel'
    · rfl
    intro fuel'
    have hnext : ∀ (type : ObjcType) s, FramesAt ahead (do
        let type ← pure type
        stars ((← Rule.state).weight + 1) type none) (do
        let type ← pure type
        stars ((← Rule.state).weight + 1) type none) s := fun type s =>
      (FramesAt.pure type s).bind fun found s₁ => .state fun _ _ => stars_framesAt _ _ found none s₁
    unfold objcType
    refine (baseName_framesAt s).bind fun name s₁ => .state fun s₁' hlooks => ?_
    refine .ite ?_ (fun _ => .ite Iff.rfl (fun _ => ?_) fun _ => ?_) fun _ => hnext _ s₁
    · rw [hlooks.current_eq]
    · refine (FramesAt.list (by decide) (by decide) (fun s => ?_) s₁).bind fun _ s₂ => hnext _ s₂
      exact (FramesAt.identifier _ s).map _
    · refine (FramesAt.list (by decide) (by decide) (fun s => ?_) s₁).bind fun _ s₂ => hnext _ s₂
      exact (qualifiers_framesAt s).bind fun _ s₂ => (ih fuel' s₂).bind fun _ s₃ => .pure _ s₃

theorem framesAt_failingAs {α : Type} {r r' : Rule α} {cause : SyntaxError.Cause} {s : ReadState}
    (h : FramesAt view r r' s) : FramesAt view (failingAs cause r) (failingAs cause r') s := by
  have hdone : ∀ {r : Rule α} {s a t}, failingAs cause r s = .done a t ↔ r s = .done a t := by
    intro r s a t
    unfold failingAs
    cases r s <;> simp
  have hkeeps := h.keeps
  refine ⟨?_, fun hneat hrest hsees hstops => ?_⟩
  · unfold Keeping Ends at hkeeps ⊢
    unfold failingAs
    cases hr : r s with
    | broken fault => trivial
    | done a t => rw [hr] at hkeeps; exact hkeeps
    | failed e t => rw [hr] at hkeeps; exact ⟨hkeeps.1, rfl⟩
  · obtain ⟨p, hp, hseesp, hrun⟩ :=
      h.frames ⟨hdone.mp hneat.done, hneat.errors⟩ hrest hsees hstops
    refine ⟨p, hp, hseesp, fun w' o hstops' => (hrun w' o hstops').imp ?_ hdone.mpr⟩
    rintro ⟨fault, hbroken⟩
    refine ⟨fault, ?_⟩
    unfold failingAs
    rw [hbroken]

theorem typeName_framesAt (s : ReadState) : FramesAt ahead typeName typeName s := by
  unfold typeName
  refine .state fun s' hlooks => (qualifiers_framesAt s).bind fun inFront s₁ => .state fun s₁' _ => ?_
  refine (framesAt_failingAs (objcType_framesAt _ _ s₁)).bind fun (type, behind) s₂ => ?_
  refine .state fun s₂' hlooks' => ?_
  rw [hlooks.currentSpan_eq, hlooks'.lastEnd_eq]
  cases Span.between s.currentSpan.start s₂.lastEnd with
  | error fault => exact .breakWith fault _ s₂
  | ok span => exact .pure _ s₂

/-! ## Properties -/

theorem propertyModifier_framesAt (heq : view.Tells .eq) (hcolon : view.Tells .colon)
    (s : ReadState) : FramesAt view propertyModifier propertyModifier s := by
  unfold propertyModifier
  refine (FramesAt.identifier _ s).bind fun name s₁ => ?_
  have last : ∀ (value : Option String) t, FramesAt view (do
      let value ← pure value
      leafFrom (.modifier ⟨name.name, value⟩) name.span.start) (do
      let value ← pure value
      leafFrom (.modifier ⟨name.name, value⟩) name.span.start) t := fun value t =>
    (FramesAt.pure value t).bind fun found u => .leafFrom _ _ u
  refine (FramesAt.eat (by decide) heq s₁).bind fun eq s₂ => ?_
  refine .ite Iff.rfl (fun _ => ?_) fun _ => last none s₂
  refine (FramesAt.identifier _ s₂).bind fun accessor s₃ => ?_
  exact (FramesAt.eat (by decide) hcolon s₃).bind fun colon s₄ => last _ s₄

theorem modifierList_framesAt (s : ReadState) : FramesAt ahead modifierList modifierList s :=
  .withNode <| (FramesAt.list (by decide) (by decide)
    (propertyModifier_framesAt (tells_ahead _) (tells_ahead _)) _).bind fun _ s₁ => .pure () s₁

theorem propertyName_framesAt (type : Slot TypeName) (s : ReadState) :
    FramesAt ahead (propertyName type) (propertyName type) s := by
  unfold propertyName
  refine .state fun s' hlooks => .ite ?_ (fun _ => ?_) fun _ => (FramesAt.identifier _ s).recover _
  · rw [hlooks.current_eq]
  · rw [hlooks.currentSpan_eq]
    exact (FramesAt.skipUntil _ s).bind fun _ s₁ => .pure _ s₁

theorem propertyFields_framesAt (isOptional : Bool) (s : ReadState) :
    FramesAt ahead (propertyFields isOptional) (propertyFields isOptional) s := by
  unfold propertyFields propertyEnd
  refine ((typeName_framesAt s).recover _).bind fun type s₁ => ?_
  refine (propertyName_framesAt type s₁).bind fun name s₂ => (FramesAt.setKind _ s₂).bind fun _ s₃ => ?_
  refine .state fun s₃' hlooks => .ite ?_ (fun _ => .pure _ s₃) fun _ => ?_
  · rw [hlooks.current_eq]
  · exact .expectLeaf (by decide) _ _ s₃

theorem propertyParts_framesAt (isOptional : Bool) (s : ReadState) :
    FramesAt ahead (propertyParts isOptional) (propertyParts isOptional) s := by
  unfold propertyParts
  refine (FramesAt.keywordHere s).bind fun _ s₁ => .state fun s₁' hlooks => .ite ?_ (fun _ => ?_) ?_
  · rw [hlooks.current_eq]
  · exact (modifierList_framesAt s₁).bind fun _ s₂ => propertyFields_framesAt isOptional s₂
  · exact fun _ => propertyFields_framesAt isOptional s₁

theorem property_framesAt (s : ReadState) : FramesAt ahead property property s := by
  rw [property_eq]
  refine .state fun s' hlooks => ?_
  rw [hlooks.inOptional_eq]
  exact .withNode (propertyParts_framesAt _ _)

/-! ## Methods -/

theorem parenthesizedType_framesAt (s : ReadState) :
    FramesAt ahead parenthesizedType parenthesizedType s :=
  (FramesAt.advance s).bind fun _ s₁ => (typeName_framesAt s₁).bind fun type s₂ =>
    (FramesAt.expect (by decide) _ s₂).bind fun _ s₃ => .pure type s₃

theorem optionalType_framesAt (s : ReadState) : FramesAt ahead optionalType optionalType s := by
  unfold optionalType
  refine .state fun s' hlooks => .ite ?_ (fun _ => ?_) fun _ => .pure none s
  · rw [hlooks.current_eq]
  · exact (parenthesizedType_framesAt s).map some

theorem keywordParts_framesAt (fuel : Nat) : ∀ fuel' keyword read (s : ReadState),
    FramesAt ahead (keywordParts fuel keyword read) (keywordParts fuel' keyword read) s := by
  induction fuel with
  | zero => intro _ _ _ s; exact .breakWith _ _ s
  | succ fuel ih =>
    intro fuel' keyword read s
    apply FramesAt.onFuel fuel'
    · rfl
    intro fuel'
    unfold keywordParts
    refine (FramesAt.advance s).bind fun _ s₁ => (optionalType_framesAt s₁).bind fun type s₂ => ?_
    refine (FramesAt.identifier _ s₂).bind fun name s₃ => .state fun s₃' hlooks => ?_
    refine .ite ?_ (fun _ => ?_) fun _ => .ite ?_ (fun _ => ih fuel' _ _ s₃) fun _ => .pure _ s₃
    · rw [hlooks.current_eq]
      by_cases hc : s₃.current = .identifier
      · rw [hlooks.second_eq (by rw [hc]; decide) (by rw [hc]; decide)]
      · simp [hc]
    · exact (FramesAt.identifier _ s₃).bind fun next s₄ => ih fuel' _ _ s₄
    · rw [hlooks.current_eq]

theorem variadicMark_framesAt (s : ReadState) : FramesAt ahead variadicMark variadicMark s := by
  unfold variadicMark
  refine (FramesAt.eat (by decide) (tells_ahead _) s).bind fun found s₁ => ?_
  exact .ite Iff.rfl (fun _ => .readWhile (fun _ _ _ => rfl) s₁) fun _ => .pure _ s₁

theorem selectorFrom_framesAt (first : Option Ident) (s : ReadState) :
    FramesAt ahead (selectorFrom first) (selectorFrom first) s := by
  unfold selectorFrom
  refine .state fun s' hlooks => .ite ?_ (fun _ => ?_) fun _ => ?_
  · rw [hlooks.current_eq]
  · exact (keywordParts_framesAt _ _ _ _ s).bind fun parts s₁ =>
      (variadicMark_framesAt s₁).bind fun _ s₂ => .pure _ s₂
  · cases first with
    | none => exact .failHere _ s
    | some name => exact .pure _ s

theorem selector_framesAt (s : ReadState) : FramesAt ahead selector selector s := by
  unfold selector
  refine .state fun s' hlooks => .ite ?_ (fun _ => ?_) fun _ => ?_
  · rw [hlooks.current_eq]
  · exact ((FramesAt.identifier _ s).map some).bind fun first s₁ => selectorFrom_framesAt first s₁
  · exact (FramesAt.pure none s).bind fun first s₁ => selectorFrom_framesAt first s₁

/-- The attributes of a method are read in front of anything, with as much fuel as there are tokens. -/
theorem readAttributes_onto (fuel : Nat) : ∀ {s : ReadState} {q w : List Token},
    (readAttributes fuel s).rest = q ++ w → OpensAhead q → s.weight ≤ fuel →
      ∃ p, s.rest = p ++ w ∧ OpensAhead p ∧ ∀ w' o fuel', (s.onto (p ++ w') o).weight ≤ fuel' →
        readAttributes fuel' (s.onto (p ++ w') o) = (readAttributes fuel s).onto (q ++ w') o := by
  induction fuel with
  | zero =>
    intro s q w hrest hsees hfuel
    -- Without fuel there are no tokens, so no list is opened.
    have hrow : s.rest = q ++ w := hrest
    obtain ⟨t, ts, rfl⟩ := hsees.exists_cons
    have hpos : 0 < s.weight := by
      unfold ReadState.weight
      rw [hrow]
      exact weightOf_pos (List.cons_ne_nil _ _)
    omega
  | succ fuel ih =>
    intro s q w hrest hsees hfuel
    have hword : ∀ fuel (s : ReadState), s.current = .identifier → readAttributes (fuel + 1) s =
        readAttributes fuel (AgreeAt.optionalGroup .leftParen .rightParen s.advance) := by
      intro fuel s hc
      conv => lhs; unfold readAttributes
      exact if_pos hc
    by_cases hc : s.current = .identifier
    · rw [hword fuel s hc] at hrest ⊢
      have hlt := weight_advance_lt (s := s) (by rw [hc]; decide)
      have hle := (Passage.of_reads (AgreeAt.reads_optionalGroup .leftParen .rightParen
        s.advance)).forward.weight_le
      obtain ⟨q₁, hgroup, hsees₁, hmore⟩ := ih hrest hsees (by omega)
      obtain ⟨q₂, hbehind, hsees₂, hread⟩ := FramesAt.optionalGroup_onto hgroup hsees₁
      obtain ⟨t, rest, hs, ht⟩ := ReadState.exists_cons_of_current hc (by decide)
      rw [ReadState.advance_of_cons hs, ReadState.past_rest] at hbehind
      subst hbehind
      refine ⟨t :: q₂, hs, hsees₂.cons t, fun w' o fuel' hfuel' => ?_⟩
      have hc' : (s.onto (t :: q₂ ++ w') o).current = .identifier := ht
      have hlt' := weight_advance_lt (s := s.onto (t :: q₂ ++ w') o) (by rw [hc']; decide)
      cases fuel' with
      | zero => omega
      | succ fuel' =>
        have hadvance : (s.onto (t :: q₂ ++ w') o).advance = s.advance.onto (q₂ ++ w') o := by
          rw [ReadState.advance_of_cons hs]
          rfl
        have hle' := (Passage.of_reads (AgreeAt.reads_optionalGroup .leftParen .rightParen
          (s.advance.onto (q₂ ++ w') o))).forward.weight_le
        rw [hadvance] at hlt'
        rw [hread] at hle'
        rw [hword fuel' _ hc', hadvance, hread]
        exact hmore w' o fuel' (by omega)
    · rw [readAttributes_of_ne hc] at hrest ⊢
      refine ⟨q, hrest, hsees, fun w' o fuel' _ => ?_⟩
      have hlooks := FramesAt.Looks.onto hrest hsees w' o
      exact readAttributes_of_ne (by rwa [hlooks.current_eq]) fuel'

theorem attributes_framesAt (s : ReadState) :
    FramesAt ahead (modify fun s => readAttributes s.weight s)
      (modify fun s => readAttributes s.weight s) s := by
  refine .modify (.of_reads (reads_readAttributes _ s)) fun {q w} hrest hsees => ?_
  obtain ⟨p, hp, hseesp, hread⟩ := readAttributes_onto _ hrest hsees (Nat.le_refl _)
  exact ⟨p, hp, hseesp, fun w' o => hread w' o _ (Nat.le_refl _)⟩

theorem methodParts_framesAt (start : MethodData) (s : ReadState) :
    FramesAt ahead (methodParts start) (methodParts start) s :=
  (FramesAt.punctuationHere s).bind fun _ s₁ => (optionalType_framesAt s₁).bind fun _ s₂ =>
    (selector_framesAt s₂).bind fun _ s₃ => (FramesAt.setKind _ s₃).bind fun _ s₄ =>
    (attributes_framesAt s₄).bind fun _ s₅ => .expectLeaf (by decide) _ _ s₅

theorem method_framesAt (s : ReadState) : FramesAt ahead method method s := by
  rw [method_eq]
  refine .state fun s' hlooks => ?_
  rw [hlooks.current_eq, hlooks.inOptional_eq]
  exact .withNode (methodParts_framesAt _ _)

/-! ## Bodies -/

/-- An unknown member is never read without an error. -/
theorem unknownMember_framesAt (cause : SyntaxError.Cause) (s : ReadState) :
    FramesAt ahead (unknownMember cause) (unknownMember cause) s :=
  .of_not_neatly (keeping_of_agreeAt (unknownMember_agreeAt cause s s)) fun _ _ hneat =>
    FramesAt.not_neatly_report rfl (keeping_of_agreeAt (skipMember_agreeAt _ _)) hneat.of_state

theorem memberRound_framesAt (cause : SyntaxError.Cause) (inProtocol : Bool) (kind : TokenKind)
    (s : ReadState) :
    FramesAt ahead (memberRound cause inProtocol kind) (memberRound cause inProtocol kind) s := by
  have recovers : ∀ {r : Rule Unit}, FramesAt ahead r r s →
      FramesAt ahead (recoverMember r) (recoverMember r) s := fun {r} h =>
    h.rescue (.recoverMember h.keeps) (rescues_recoverMember r) (rescues_recoverMember r)
  have enters : ∀ inOptional : Bool, FramesAt ahead (do
      modify fun s => { s with inOptional }
      keywordHere) (do
      modify fun s => { s with inOptional }
      keywordHere) s := fun inOptional =>
    (FramesAt.enter inOptional s).bind fun _ s₁ => .keywordHere s₁
  unfold memberRound
  split
  · exact recovers (property_framesAt s)
  · exact recovers (method_framesAt s)
  · exact recovers (method_framesAt s)
  · exact .ite Iff.rfl (fun _ => enters _) fun _ => unknownMember_framesAt cause s
  · exact .ite Iff.rfl (fun _ => enters _) fun _ => unknownMember_framesAt cause s
  · exact unknownMember_framesAt cause s

theorem memberList_framesAt (cause : SyntaxError.Cause) (inProtocol : Bool) (fuel : Nat) :
    ∀ fuel' (s : ReadState), FramesAt ahead (memberList cause inProtocol fuel)
      (memberList cause inProtocol fuel') s := by
  induction fuel with
  | zero => intro _ s; exact .breakWith _ _ s
  | succ fuel ih =>
    intro fuel' s
    apply FramesAt.onFuel fuel'
    · rfl
    intro fuel'
    rw [memberList_succ, memberList_succ]
    refine .state fun s' hlooks => ?_
    rw [hlooks.current_eq]
    refine .ite Iff.rfl (fun _ => .pure () s) fun _ => ?_
    exact (memberRound_framesAt cause inProtocol _ s).bind fun _ s₁ => ih fuel' s₁

theorem bodyFrom_framesAt (inProtocol : Bool) (fuel fuel' : Nat) (s : ReadState) :
    FramesAt ahead (bodyFrom inProtocol fuel) (bodyFrom inProtocol fuel') s :=
  (memberList_framesAt _ _ _ _ s).bind fun _ s₁ => (FramesAt.enter false s₁).bind fun _ s₂ =>
    .expectLeaf (by decide) _ _ s₂

/-! ## Declarations -/

theorem protocolList_framesAt (s : ReadState) : FramesAt ahead protocolList protocolList s :=
  .withNode <| (FramesAt.list (by decide) (by decide) (FramesAt.identifier _) _).bind
    fun _ s₁ => .setKind _ s₁

/-- A list of protocols, of which a broken one is noted. -/
def recoveredList : Rule Unit := fun s =>
  match protocolList s with
  | .failed e s =>
    (do let _ ← eat .greater) ((s.report e).skipUntil fun kind =>
      kind == TokenKind.greater || isMemberSync kind)
  | other => other

theorem optionalProtocolList_eq : optionalProtocolList = (do
    if (← Rule.state).current = .less then recoveredList else return) := by
  funext s
  show optionalProtocolList s = (if s.current = .less then _ else _ : Rule Unit) s
  unfold optionalProtocolList
  by_cases hc : s.current = .less
  · rw [if_pos hc, if_pos hc]
    rfl
  · rw [if_neg hc, if_neg hc]
    rfl

theorem keeping_recoveredList (s : ReadState) : Keeping recoveredList s := by
  have hkeeps := keeping_of_agreeAt (protocolList_agreeAt s s)
  unfold Keeping Ends at hkeeps
  unfold Keeping Ends recoveredList
  cases hr : protocolList s with
  | broken fault => trivial
  | done a t => rw [hr] at hkeeps; exact hkeeps
  | failed e t =>
    rw [hr] at hkeeps
    have hskip := keeps_reportThenSkip t e fun kind => kind == .greater || isMemberSync kind
    exact (keeping_of_agreeAt (AgreeAt.eatThenPure .greater _ _)).mono
      (fun _ _ h => (hkeeps.1.trans hskip).trans h) fun _ _ h => ⟨(hkeeps.1.trans hskip).trans h.1, h.2⟩

theorem rescues_recoveredList : Rescues recoveredList protocolList where
  done h := by unfold recoveredList; rw [h]
  broken h := by unfold recoveredList; rw [h]
  failed {s e t} h hnew := by
    have hends := ends_skipThenEat hnew (fun kind => kind == .greater || isMemberSync kind) .greater t
    unfold Ends recoveredList
    rw [h]
    exact hends

theorem optionalProtocolList_framesAt (s : ReadState) :
    FramesAt ahead optionalProtocolList optionalProtocolList s := by
  rw [optionalProtocolList_eq]
  refine .state fun s' hlooks => .ite ?_ (fun _ => ?_) fun _ => .pure () s
  · rw [hlooks.current_eq]
  · exact (protocolList_framesAt s).rescue (keeping_recoveredList s) rescues_recoveredList
      rescues_recoveredList

theorem optionalSuperclass_framesAt (s : ReadState) :
    FramesAt ahead optionalSuperclass optionalSuperclass s := by
  unfold optionalSuperclass
  refine .state fun s' hlooks => .ite ?_ (fun _ => ?_) fun _ => .pure () s
  · rw [hlooks.current_eq]
  · exact (FramesAt.punctuationHere s).bind fun _ s₁ =>
      (FramesAt.identifier _ s₁).bind fun name s₂ => .leaf _ _ s₂

theorem variableBlock_framesAt (s : ReadState) : FramesAt ahead variableBlock variableBlock s :=
  .modify (.of_reads (AgreeAt.reads_optionalGroup _ _ s)) FramesAt.optionalGroup_onto

theorem head_framesAt (inProtocol : Bool) (s : ReadState) :
    FramesAt ahead (head inProtocol) (head inProtocol) s := by
  cases inProtocol with
  | false =>
    exact (FramesAt.keywordHere s).bind fun _ s₁ => (FramesAt.identifier _ s₁).bind fun name s₂ =>
      (FramesAt.setKind _ s₂).bind fun _ s₃ => (optionalSuperclass_framesAt s₃).bind fun _ s₄ =>
      (optionalProtocolList_framesAt s₄).bind fun _ s₅ => variableBlock_framesAt s₅
  | true =>
    exact (FramesAt.keywordHere s).bind fun _ s₁ => (FramesAt.identifier _ s₁).bind fun name s₂ =>
      (FramesAt.setKind _ s₂).bind fun _ s₃ => optionalProtocolList_framesAt s₃

theorem declaration_framesAt (inProtocol : Bool) (s : ReadState) :
    FramesAt ahead (declaration inProtocol) (declaration inProtocol) s := by
  rw [declaration_eq]
  exact .withNode <| (head_framesAt inProtocol _).bind fun _ s₁ =>
    .state fun _ _ => bodyFrom_framesAt inProtocol _ _ s₁

theorem skipThenEat_framesAt (stop : TokenKind → Bool) {kind : TokenKind}
    (hkind : kind ≠ .endOfFile) (s : ReadState) : FramesAt ahead (do
      modify (·.skipUntil stop)
      let _ ← eat kind) (do
      modify (·.skipUntil stop)
      let _ ← eat kind) s :=
  (FramesAt.skipUntil stop s).bind fun _ s₁ =>
    (FramesAt.eat hkind (tells_ahead _) s₁).bind fun _ s₂ => .pure () s₂

theorem declaration_agreeAt (inProtocol : Bool) (s s' : ReadState) :
    AgreeAt none (declaration inProtocol) (declaration inProtocol) s s' := by
  cases inProtocol with
  | false => exact classInterface_agreeAt s s'
  | true => exact protocolDeclaration_agreeAt s s'

theorem declarationRound_framesAt (kind : TokenKind) (isForward : Bool) (s : ReadState) :
    FramesAt ahead (declarationRound kind isForward) (declarationRound kind isForward) s := by
  have recovers : ∀ inProtocol, FramesAt ahead (recoverDeclaration (declaration inProtocol))
      (recoverDeclaration (declaration inProtocol)) s := fun inProtocol =>
    (declaration_framesAt inProtocol s).rescue
      (keeping_of_agreeAt (AgreeAt.recoverDeclaration (declaration_agreeAt inProtocol s s)))
      (rescues_recoverDeclaration _) (rescues_recoverDeclaration _)
  unfold declarationRound
  split
  · exact recovers false
  · exact .ite Iff.rfl (fun _ => skipThenEat_framesAt _ (by decide) s) fun _ => recovers true
  · exact skipThenEat_framesAt _ (by decide) s
  · exact skipThenEat_framesAt _ (by decide) s
  · exact (FramesAt.advance s).bind fun _ s₁ => .pure () s₁

/-- What a declaration is, is seen in front of an opening delimiter. -/
theorem declarationRound_of_looks {s s' : ReadState} (h : FramesAt.Looks s s') :
    declarationRound s'.current (isForwardProtocol s') =
      declarationRound s.current (isForwardProtocol s) := by
  rw [h.current_eq]
  by_cases hc : s.current = .atProtocol
  · have hsecond := h.second_eq (by rw [hc]; decide) (by rw [hc]; decide)
    have hforward : isForwardProtocol s' = isForwardProtocol s := by
      unfold isForwardProtocol
      rw [hsecond]
      by_cases hname : s.second = .identifier
      · rw [h.third_eq (by rw [hc]; decide) (by rw [hc]; decide) (by rw [hname]; decide)
          (by rw [hname]; decide)]
      · rw [beq_false_of_ne hname, Bool.false_and, Bool.false_and]
    rw [hforward]
  · unfold declarationRound
    split <;> first | rfl | exact absurd ‹_› hc

end HeaderBridge.Grammar
