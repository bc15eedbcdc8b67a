/-
  What types, properties and methods pass over. Behind its directive a property passes over no
  directive at all. A method passes over those that stand in a group in parentheses behind one of its
  attributes: such a group is read to its end, whatever is in it.
-/
import HeaderBridge.Proofs.Directives.Watch
import HeaderBridge.Proofs.Tree.Rules

namespace HeaderBridge

open ReadState (kindOf)
open Rule

/-! ## Groups -/

/-- Of some open brackets in front of the tokens, `depth` in number, one is open as far as the tokens
    go. -/
def StillOpen (opening closing : TokenKind) (depth : Nat) (inside : List Token) : Prop :=
  ∀ front, front <+: inside →
    front.countP (·.kind == closing) < front.countP (·.kind == opening) + depth

/-- At the end of the tokens a parenthesis behind a word is still open. -/
def InGroup (before : List Token) : Prop :=
  ∃ front word paren inside, before = front ++ word :: paren :: inside ∧
    word.kind = .identifier ∧ paren.kind = .leftParen ∧ StillOpen .leftParen .rightParen 1 inside

/-- At the end of the tokens a brace is still open. -/
def InBraces (before : List Token) : Prop :=
  ∃ front brace inside, before = front ++ brace :: inside ∧
    brace.kind = .leftBrace ∧ StillOpen .leftBrace .rightBrace 1 inside

theorem InGroup.behind (front : List Token) {before : List Token} (h : InGroup before) :
    InGroup (front ++ before) := by
  obtain ⟨front', word, paren, inside, rfl, hrest⟩ := h
  exact ⟨front ++ front', word, paren, inside, (List.append_assoc ..).symm, hrest⟩

theorem InBraces.behind (front : List Token) {before : List Token} (h : InBraces before) :
    InBraces (front ++ before) := by
  obtain ⟨front', brace, inside, rfl, hrest⟩ := h
  exact ⟨front ++ front', brace, inside, (List.append_assoc ..).symm, hrest⟩

theorem StillOpen.nil {opening closing : TokenKind} {depth : Nat} (h : 0 < depth) :
    StillOpen opening closing depth [] := fun front hfront => by
  rw [List.prefix_nil.mp hfront]
  simpa using h

/-- A token opens one bracket, closes one, or does neither. -/
theorem StillOpen.cons {opening closing : TokenKind} {depth depth' : Nat} {t : Token}
    {inside : List Token} (h : StillOpen opening closing depth' inside) (hdepth : 0 < depth)
    (ht : depth' + (if t.kind == closing then 1 else 0) =
      depth + if t.kind == opening then 1 else 0) :
    StillOpen opening closing depth (t :: inside) := by
  intro front hfront
  rcases List.prefix_cons_iff.mp hfront with rfl | ⟨front', rfl, hfront'⟩
  · simpa using hdepth
  · have hcount := h front' hfront'
    rw [List.countP_cons, List.countP_cons]
    omega

namespace ReadState

/-- Behind some open brackets, tokens are moved as long as one of the brackets is open. -/
theorem skipGroup_move_spec {opening closing : TokenKind} (hne : opening ≠ closing) (s : ReadState)
    (ts : List Token) : ∀ depth passed, 0 < depth → ∃ group rest, ts = group ++ rest ∧
      skipGroup.move opening closing s depth passed ts =
        { s with passed := group.reverse ++ passed, rest } ∧
      ∀ before t after, group = before ++ t :: after → StillOpen opening closing depth before := by
  induction ts with
  | nil => exact fun depth passed _ => ⟨[], [], rfl, rfl, by simp⟩
  | cons t ts ih =>
    intro depth passed hdepth
    -- What follows the token is moved at another depth, unless the token closes the group.
    have onward : ∀ depth', 0 < depth' → depth' + (if t.kind == closing then 1 else 0) =
        depth + (if t.kind == opening then 1 else 0) →
        skipGroup.move opening closing s depth passed (t :: ts) =
          skipGroup.move opening closing s depth' (t :: passed) ts →
        ∃ group rest, t :: ts = group ++ rest ∧
          skipGroup.move opening closing s depth passed (t :: ts) =
            { s with passed := group.reverse ++ passed, rest } ∧
          ∀ before u after, group = before ++ u :: after →
            StillOpen opening closing depth before := by
      intro depth' hdepth' ht hmove
      obtain ⟨group, rest, rfl, hm, hopen⟩ := ih depth' (t :: passed) hdepth'
      refine ⟨t :: group, rest, rfl, by rw [hmove, hm]; simp, ?_⟩
      rintro (_ | ⟨x, before⟩) u after he
      · exact .nil hdepth
      · obtain ⟨rfl, hgroup⟩ := List.cons.inj he
        exact (hopen before u after hgroup).cons hdepth ht
    have hmove := skipGroup_move_cons opening closing s depth passed t ts
    by_cases hopening : t.kind = opening
    · exact onward (depth + 1) (by omega) (by simp [hopening, hne]) (by rw [hmove, if_pos hopening])
    rw [if_neg hopening] at hmove
    by_cases hclosing : t.kind = closing
    · rw [if_pos hclosing] at hmove
      by_cases hlast : depth ≤ 1
      · refine ⟨[t], ts, rfl, by rw [hmove, if_pos hlast]; rfl, ?_⟩
        rintro (_ | ⟨x, before⟩) u after he
        · exact .nil hdepth
        · simp at he
      · refine onward (depth - 1) (by omega) ?_ (by rw [hmove, if_neg hlast])
        simp only [hclosing, beq_self_eq_true, reduceIte, beq_false_of_ne hne.symm,
          Bool.false_eq_true]
        omega
    · rw [if_neg hclosing] at hmove
      exact onward depth hdepth (by simp [hopening, hclosing]) hmove

/-- Where a group is passed over, its bracket is still open in front of each of its tokens. -/
theorem skipGroup_spec {opening closing : TokenKind} (hne : opening ≠ closing)
    {s : ReadState} {bracket : Token} {ts : List Token} (hrest : s.rest = bracket :: ts)
    (hbracket : bracket.kind = opening) : ∃ group rest, ts = group ++ rest ∧
      s.skipGroup opening closing = s.past (bracket :: group) rest ∧
      ∀ before t after, group = before ++ t :: after → StillOpen opening closing 1 before := by
  obtain ⟨group, rest, rfl, hm, hopen⟩ :=
    skipGroup_move_spec hne s ts 1 (bracket :: s.passed) Nat.one_pos
  have hfirst : s.skipGroup opening closing =
      skipGroup.move opening closing s 1 (bracket :: s.passed) (group ++ rest) := by
    unfold skipGroup
    rw [hrest, skipGroup_move_cons, if_pos hbracket]
  refine ⟨group, rest, rfl, ?_, hopen⟩
  rw [hfirst, hm]
  simp [past]

end ReadState

namespace Grammar

variable {w : Watch} {allowed : NodeKind → Prop} {s : ReadState}

/-! ## Types -/

theorem qualifiers_passesAt (s : ReadState) : PassesAt w allowed qualifiers s := by
  refine .state (.bind (.modify (.readWhile (fun ts hw => ?_) s)) fun _ s₁ =>
    .state (.pure _ s₁))
  cases ts with
  | nil => rfl
  | cons t ts =>
    have hdirective := w.directive t.kind hw
    have hword : (t.kind == .identifier) = false := beq_false_of_ne fun h => by
      rw [h] at hdirective
      cases hdirective
    show (t.kind == .identifier && _) = false
    rw [hword]
    rfl

/-- The words of a name are words. -/
theorem passes_nameWords (ts : List Token) : ∀ (last : String) (s : ReadState), s.rest = ts →
    Passes w allowed s ((nameWords last ts).foldl (fun s _ => s.advance) s) := by
  induction ts with
  | nil => exact fun _ s _ => .refl s
  | cons t ts ih =>
    intro last s hrest
    unfold nameWords
    split
    · next hword =>
      simp only [Bool.and_eq_true, beq_iff_eq] at hword
      have hcurrent : s.current = .identifier := (ReadState.current_of_cons hrest).trans hword.1.2
      refine (Passes.advance (by rw [hcurrent]; exact w.not_wanted rfl)).trans
        (ih t.text s.advance ?_)
      rw [ReadState.advance_of_cons hrest]
      rfl
    · exact .refl s

theorem baseName_passesAt (s : ReadState) : PassesAt w allowed baseName s := by
  refine (PassesAt.identifier _ s).bind fun first s₁ => .state ?_
  exact .bind (.modify (passes_nameWords s₁.rest first.name s₁ rfl)) fun _ s₂ => .pure _ s₂

theorem stars_passesAt (fuel : Nat) :
    ∀ type found (s : ReadState), PassesAt w allowed (stars fuel type found) s := by
  induction fuel with
  | zero => exact fun _ _ s => .breakWith _ s
  | succ fuel ih =>
    intro type found s
    unfold stars
    refine (PassesAt.eat rfl s).bind fun star s₁ => .ite (fun _ => ?_) fun _ => .pure _ s₁
    exact (qualifiers_passesAt s₁).bind fun behind s₂ => ih _ _ s₂

theorem objcType_passesAt (fuel : Nat) : ∀ s : ReadState, PassesAt w allowed (objcType fuel) s := by
  induction fuel with
  | zero => exact .breakWith _
  | succ fuel ih =>
    intro s
    unfold objcType
    have hnext : ∀ type s, PassesAt w allowed (do
        let type ← pure type
        stars ((← state).weight + 1) type none) s := fun type s =>
      (PassesAt.pure type s).bind fun type s₁ => .state (stars_passesAt _ type none s₁)
    refine (baseName_passesAt s).bind fun name s₁ => .state ?_
    refine .ite (fun _ => .ite (fun _ => ?_) fun _ => ?_) fun _ => hnext _ s₁
    · exact (PassesAt.list rfl rfl (fun s => (PassesAt.identifier _ s).map _) s₁).bind fun _ s₂ =>
        hnext _ s₂
    · refine (PassesAt.list rfl rfl (fun s => ?_) s₁).bind fun _ s₂ => hnext _ s₂
      exact (qualifiers_passesAt s).bind fun _ s₂ => (ih s₂).bind fun _ s₃ => .pure _ s₃

theorem failingAs_passesAt {α : Type} {cause : SyntaxError.Cause} {r : Rule α}
    (h : PassesAt w allowed r s) : PassesAt w allowed (failingAs cause r) s := by
  unfold PassesAt Ends at h ⊢
  unfold failingAs
  cases hr : r s with
  | done a s' => rw [hr] at h; exact h
  | failed e s' => rw [hr] at h; exact h
  | broken f => trivial

theorem typeName_passesAt (s : ReadState) : PassesAt w allowed typeName s := by
  refine .state ((qualifiers_passesAt s).bind fun inFront s₁ => .state ?_)
  refine (failingAs_passesAt (objcType_passesAt _ s₁)).bind fun found s₂ => .state ?_
  obtain ⟨type, behind⟩ := found
  simp only []
  split
  · exact .pure _ s₂
  · exact .breakWith _ s₂

/-! ## Properties -/

/-- What recovery stops at, it stops at in front of every wanted directive. -/
theorem isMemberSync_of_wanted {kind : TokenKind} (h : w.wanted kind = true) :
    isMemberSync kind = true := by
  unfold isMemberSync
  rw [w.directive kind h]
  rfl

theorem propertyModifier_passesAt (s : ReadState) : PassesAt w allowed propertyModifier s := by
  have last : ∀ (name : Ident) (value : Option String) s, PassesAt w allowed (do
      let value ← pure value
      leafFrom (.modifier ⟨name.name, value⟩) name.span.start) s := fun name value s =>
    (PassesAt.pure value s).bind fun value s₁ => .leafFrom _ _ s₁
  refine (PassesAt.identifier _ s).bind fun name s₁ => (PassesAt.eat rfl s₁).bind fun eq s₂ => ?_
  refine .ite (fun _ => ?_) fun _ => last name none s₂
  exact (PassesAt.identifier _ s₂).bind fun accessor s₃ => (PassesAt.eat rfl s₃).bind fun colon s₄ =>
    last name _ s₄

theorem modifierList_passesAt (s : ReadState) : PassesAt w allowed modifierList s := by
  have hinner : ∀ s₁, PassesAt w (fun _ => True) (do
      let _ ← list true .leftParen .rightParen propertyModifier) s₁ := fun s₁ =>
    (PassesAt.list rfl rfl propertyModifier_passesAt s₁).bind fun _ s₂ => .pure () s₂
  exact (hinner _).withNode

theorem propertyName_passesAt (type : Slot TypeName) (s : ReadState) :
    PassesAt w allowed (propertyName type) s := by
  have hsync : ∀ kind, w.wanted kind = true → (kind == .semicolon || isMemberSync kind) = true :=
    fun kind hw => by rw [isMemberSync_of_wanted hw, Bool.or_true]
  unfold propertyName
  refine .state (.ite (fun _ => ?_) fun _ => .recover (.identifier _ s) hsync)
  exact .bind (.modify (.skipUntil hsync s)) fun _ s₁ => .pure _ s₁

/-- A property behind its directive. -/
def propertyRest (isOptional : Bool) : Rule Unit := do
  if (← state).current = .leftParen then modifierList
  propertyFields isOptional

theorem propertyFields_courseAt (isOptional : Bool) (s : ReadState) :
    CourseAt (propertyFields isOptional) s :=
  (CourseAt.recover (typeName_courseAt s) _).bind fun type s₁ =>
    (propertyName_courseAt type s₁).bind fun name s₂ => (CourseAt.setKind _ s₂).bind fun _ s₃ =>
    .state (.ite (fun _ => CourseAt.pure () s₃) fun _ => CourseAt.expectLeaf (by decide) _ _ s₃)

theorem propertyRest_courseAt (isOptional : Bool) (s : ReadState) :
    CourseAt (propertyRest isOptional) s :=
  .state (.ite (fun hparen => (modifierList_courseAt hparen).bind fun _ s₁ =>
    propertyFields_courseAt isOptional s₁) fun _ => propertyFields_courseAt isOptional s)

/-- A node that is a property. -/
def isProperty : NodeKind → Prop
  | .property _ => True
  | _ => False

/-- Behind its directive a property passes over no directive. -/
theorem propertyFields_passesAt (isOptional : Bool) (s : ReadState) :
    PassesAt w isProperty (propertyFields isOptional) s := by
  refine (PassesAt.recover (typeName_passesAt s) fun kind hw => ?_).bind fun type s₁ =>
    (propertyName_passesAt type s₁).bind fun name s₂ => ?_
  · rw [isMemberSync_of_wanted hw, Bool.or_true]
  refine (PassesAt.setKind trivial s₂).bind fun _ s₃ => .state (.ite (fun _ => .pure () s₃) fun _ => ?_)
  exact (PassesAt.expect rfl _ s₃).bind fun span s₄ => .leaf _ span s₄

theorem propertyRest_passesAt (isOptional : Bool) (s : ReadState) :
    PassesAt w isProperty (propertyRest isOptional) s :=
  .state (.ite (fun _ => (modifierList_passesAt s).bind fun _ s₁ =>
    propertyFields_passesAt isOptional s₁) fun _ => propertyFields_passesAt isOptional s)

/-! ## Methods -/

theorem parenthesizedType_passesAt (hc : s.current = .leftParen) :
    PassesAt w allowed parenthesizedType s := by
  refine (PassesAt.advance (by rw [hc]; exact w.not_wanted rfl)).bind fun _ s₁ => ?_
  refine (typeName_passesAt s₁).bind fun type s₂ => ?_
  exact (PassesAt.expect rfl _ s₂).bind fun _ s₃ => .pure type s₃

theorem optionalType_passesAt (s : ReadState) : PassesAt w allowed optionalType s :=
  .state (.ite (fun hc => (parenthesizedType_passesAt hc).map some) fun _ => .pure none s)

theorem keywordParts_passesAt (fuel : Nat) : ∀ keyword read (s : ReadState),
    s.current = .colon → PassesAt w allowed (keywordParts fuel keyword read) s := by
  induction fuel with
  | zero => exact fun _ _ s _ => .breakWith _ s
  | succ fuel ih =>
    intro keyword read s hc
    unfold keywordParts
    refine (PassesAt.advance (by rw [hc]; exact w.not_wanted rfl)).bind fun _ s₁ => ?_
    refine (optionalType_passesAt s₁).bind fun type s₂ => ?_
    refine (PassesAt.identifier _ s₂).bind fun name s₃ => .state (.ite (fun hnext => ?_) fun _ => ?_)
    · -- Behind the next label stands its colon.
      simp only [Bool.and_eq_true, decide_eq_true_eq] at hnext
      refine ends_bind.mpr (ends_identifier.mpr ⟨fun hword => ?_, fun _ => .refl s₃⟩)
      refine (ih _ _ s₃.advance ?_).from (.advance (by rw [hword]; exact w.not_wanted rfl))
      rw [← hnext.2]
      unfold ReadState.current ReadState.second
      rw [ReadState.rest_advance]
    · exact .ite (fun hcolon => ih _ _ s₃ hcolon) fun _ => .pure _ s₃

theorem variadicMark_passesAt (s : ReadState) : PassesAt w allowed variadicMark s := by
  refine (PassesAt.eat rfl s).bind fun found s₁ => .ite (fun _ => ?_) fun _ => .pure () s₁
  refine .modify (.readWhile (fun ts hw => beq_false_of_ne fun h => ?_) s₁)
  have hdirective := w.directive _ hw
  rw [h] at hdirective
  cases hdirective

theorem selectorFrom_passesAt (first : Option Ident) (s : ReadState) :
    PassesAt w allowed (selectorFrom first) s := by
  refine .state (.ite (fun hc => ?_) fun _ => ?_)
  · exact (keywordParts_passesAt _ first #[] s hc).bind fun parts s₁ =>
      (variadicMark_passesAt s₁).bind fun _ s₂ => .pure _ s₂
  · cases first with
    | some name => exact .pure _ s
    | none => exact Passes.refl s

theorem selector_passesAt (s : ReadState) : PassesAt w allowed selector s := by
  refine .state (.ite (fun _ => ?_) fun _ => (PassesAt.pure none s).bind selectorFrom_passesAt)
  exact ((PassesAt.identifier _ s).map some).bind selectorFrom_passesAt

/-- Attributes pass over directives in their groups only. -/
theorem readAttributes_passes (hw : ∀ before, InGroup before → w.hidden before) (fuel : Nat) :
    ∀ s : ReadState, Passes w allowed s (readAttributes fuel s) := by
  induction fuel with
  | zero => exact .refl
  | succ fuel ih =>
    intro s
    unfold readAttributes
    by_cases hc : s.current = .identifier
    · rw [if_pos hc]
      have hword : Passes w allowed s s.advance := .advance (by rw [hc]; exact w.not_wanted rfl)
      obtain ⟨word, rest, hrest, hkind⟩ := ReadState.exists_cons_of_current hc (by decide)
      by_cases hparen : s.advance.current = .leftParen
      · obtain ⟨paren, rest', hrest', hparen'⟩ :=
          ReadState.exists_cons_of_current hparen (by decide)
        obtain ⟨group, more, hgroup, hskip, hopen⟩ := ReadState.skipGroup_spec
          (show TokenKind.leftParen ≠ .rightParen by decide) hrest' hparen'
        -- A directive in the group stands behind the word and the parenthesis.
        have hmisses : w.Misses (word :: paren :: group) := by
          intro before t after he ht
          have hdirective := w.directive t.kind ht
          rcases before with _ | ⟨x, _ | ⟨y, before⟩⟩
          · obtain ⟨rfl, _⟩ := List.cons.inj he
            rw [hkind] at hdirective
            cases hdirective
          · obtain ⟨_, hbehind⟩ := List.cons.inj he
            obtain ⟨rfl, _⟩ := List.cons.inj hbehind
            rw [hparen'] at hdirective
            cases hdirective
          · obtain ⟨rfl, hbehind⟩ := List.cons.inj he
            obtain ⟨rfl, hinside⟩ := List.cons.inj hbehind
            exact hw _ ⟨[], word, paren, before, rfl, hkind, hparen', hopen before t after hinside⟩
        simp only [if_pos hparen]
        rw [hskip, ReadState.advance_of_cons hrest, ReadState.past_past]
        exact (Passes.past hmisses more).trans (ih _)
      · simp only [if_neg hparen]
        exact hword.trans (ih _)
    · rw [if_neg hc]
      exact .refl s

/-- A node that is a method. -/
def isMethod : NodeKind → Prop
  | .method _ => True
  | _ => False

theorem not_isMethod_of_isProperty {kind : NodeKind} (h : isProperty kind) : ¬ isMethod kind := by
  cases kind <;> first | exact h.elim | exact id

/-- What stands behind the sign of a method. -/
def methodFields (start : MethodData) : Rule Unit := do
  let returns ← optionalType
  let found ← selector
  setKind (.method { start with returns, selector := .valid found })
  modify fun s => readAttributes s.weight s
  punctuation .semicolon .methodEnd

theorem methodFields_courseAt (start : MethodData) (s : ReadState) :
    CourseAt (methodFields start) s := by
  refine (optionalType_courseAt s).bind fun returns s₁ => (selector_courseAt s₁).bind fun found s₂ => ?_
  refine (CourseAt.setKind _ s₂).bind fun _ s₃ => ?_
  refine CourseAt.bind (CourseAt.modify (.of_reads (reads_readAttributes _ s₃))) fun _ s₄ => ?_
  exact CourseAt.expectLeaf (by decide) _ _ s₄

theorem methodFields_passesAt (hw : ∀ before, InGroup before → w.hidden before)
    (start : MethodData) (s : ReadState) : PassesAt w isMethod (methodFields start) s := by
  refine (optionalType_passesAt s).bind fun returns s₁ => (selector_passesAt s₁).bind fun found s₂ => ?_
  refine (PassesAt.setKind trivial s₂).bind fun _ s₃ => ?_
  refine .bind (.modify (readAttributes_passes hw _ s₃)) fun _ s₄ => ?_
  exact (PassesAt.expect rfl _ s₄).bind fun span s₅ => .leaf _ span s₅

end Grammar

end HeaderBridge
