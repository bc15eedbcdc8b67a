/-
  What becomes of the directives of classes between declarations. A round of the loop over
  declarations reads a token and what belongs to it (`DeclarationTurn`). Behind this token it may
  pass over an `@interface` at certain places only, and `Hides` lists these: every such place is in
  something that was opened and not closed.
-/
import HeaderBridge.Proofs.Directives.Members

namespace HeaderBridge.Grammar

open ReadState (kindOf)
open Rule

variable {w : Watch} {allowed : NodeKind → Prop} {s : ReadState}

/-! ## Heads -/

theorem optionalSuperclass_passesAt (s : ReadState) : PassesAt w allowed optionalSuperclass s := by
  refine .state (.ite (fun hc => ?_) fun _ => .pure () s)
  have hcolon : PassesAt w allowed punctuationHere s :=
    .state ((PassesAt.advance (by rw [hc]; exact w.not_wanted rfl)).bind fun span s₁ => .leaf _ span s₁)
  exact hcolon.bind fun _ s₁ => (PassesAt.identifier _ s₁).bind fun name s₂ => .leaf _ _ s₂

theorem protocolList_passesAt (s : ReadState) : PassesAt w allowed protocolList s := by
  have hinner : ∀ s₁, PassesAt w (fun _ => True) (do
      setKind (.protocolList (← list true .less .greater (identifier .conformance)))) s₁ := fun s₁ =>
    (PassesAt.list rfl rfl (PassesAt.identifier _) s₁).bind fun _ s₂ => .setKind trivial s₂
  exact (hinner _).withNode

theorem optionalProtocolList_passesAt (s : ReadState) :
    PassesAt w allowed optionalProtocolList s := by
  have hlist : PassesAt w allowed protocolList s := protocolList_passesAt s
  unfold PassesAt Ends at hlist ⊢
  unfold optionalProtocolList
  by_cases hc : s.current = .less
  · rw [if_pos hc]
    cases hr : protocolList s with
    | broken fault => trivial
    | done _ t => rw [hr] at hlist; exact hlist
    | failed e t =>
      rw [hr] at hlist
      have hskip : Passes w allowed s ((t.report e).skipUntil fun kind =>
          kind == .greater || isMemberSync kind) :=
        (hlist.trans (.report t e)).trans
          (.skipUntil (fun kind hw => by rw [isMemberSync_of_wanted hw, Bool.or_true]) _)
      exact ((PassesAt.eat rfl _).bind fun _ u => .pure () u).from hskip
  · rw [if_neg hc]
    exact .refl s

/-- Variables pass over directives inside their braces only. -/
theorem variableBlock_passesAt (hw : ∀ before, InBraces before → w.hidden before) (s : ReadState) :
    PassesAt w allowed variableBlock s := by
  refine .modify ?_
  split
  · next hc =>
    obtain ⟨brace, rest, hrest, hbrace⟩ := ReadState.exists_cons_of_current hc (by decide)
    obtain ⟨group, more, _, hskip, hopen⟩ := ReadState.skipGroup_spec
      (show TokenKind.leftBrace ≠ .rightBrace by decide) hrest hbrace
    rw [hskip]
    refine .past (fun before t after he ht => ?_) more
    rcases before with _ | ⟨x, before⟩
    · obtain ⟨rfl, _⟩ := List.cons.inj he
      have hdirective := w.directive _ ht
      rw [hbrace] at hdirective
      cases hdirective
    · obtain ⟨rfl, hinside⟩ := List.cons.inj he
      exact hw _ ⟨[], _, before, rfl, hbrace, hopen before t after hinside⟩
  · exact .refl s

/-- A node that is a class, or a protocol. -/
def isDeclared : (inProtocol : Bool) → NodeKind → Prop
  | false, .classInterface _ => True
  | true, .protocolDeclaration _ => True
  | _, _ => False

/-- The head of a class or a protocol behind its directive. -/
def headRest : (inProtocol : Bool) → Rule Unit
  | false => do
    let name ← identifier .className
    setKind (.classInterface (.valid name))
    optionalSuperclass
    optionalProtocolList
    variableBlock
  | true => do
    let name ← identifier .protocolName
    setKind (.protocolDeclaration (.valid name))
    optionalProtocolList

theorem head_eq (inProtocol : Bool) :
    head inProtocol = keywordHere >>= fun _ => headRest inProtocol := by
  cases inProtocol <;> rfl

theorem headRest_courseAt (inProtocol : Bool) (s : ReadState) : CourseAt (headRest inProtocol) s := by
  cases inProtocol with
  | false =>
    exact (CourseAt.identifier _ s).bind fun _ s₁ => (CourseAt.setKind _ s₁).bind fun _ s₂ =>
      (optionalSuperclass_courseAt s₂).bind fun _ s₃ =>
      (optionalProtocolList_courseAt s₃).bind fun _ s₄ => variableBlock_courseAt s₄
  | true =>
    exact (CourseAt.identifier _ s).bind fun _ s₁ => (CourseAt.setKind _ s₁).bind fun _ s₂ =>
      optionalProtocolList_courseAt s₂

theorem headRest_passesAt {inProtocol : Bool}
    (hw : inProtocol = false → ∀ before, InBraces before → w.hidden before) (s : ReadState) :
    PassesAt w (isDeclared inProtocol) (headRest inProtocol) s := by
  cases inProtocol with
  | false =>
    exact (PassesAt.identifier _ s).bind fun _ s₁ => (PassesAt.setKind trivial s₁).bind fun _ s₂ =>
      (optionalSuperclass_passesAt s₂).bind fun _ s₃ =>
      (optionalProtocolList_passesAt s₃).bind fun _ s₄ => variableBlock_passesAt (hw rfl) s₄
  | true =>
    exact (PassesAt.identifier _ s).bind fun _ s₁ => (PassesAt.setKind trivial s₁).bind fun _ s₂ =>
      optionalProtocolList_passesAt s₂

/-! ## Bodies -/

/-- What ends a body is passed over in the attributes of methods only. -/
theorem memberList_passesAt (hw : ∀ before, InGroup before → w.hidden before)
    (hends : ∀ kind, w.wanted kind = true → endsBody kind = true) (cause : SyntaxError.Cause)
    (inProtocol : Bool) (fuel : Nat) (s : ReadState) :
    PassesAt w allowed (memberList cause inProtocol fuel) s := by
  refine (memberList_members cause inProtocol fuel s).mono ?_ fun _ _ hfalse => hfalse.elim
  rintro _ s' ⟨front, cs, hlays, hmembers⟩
  refine ⟨⟨front, hlays.passed, fun before t after he ht => ?_⟩, none, cs, hlays.opened, by simp⟩
  rcases hmembers.find before t after he (w.directive _ ht) with ⟨hgroup, _⟩ | ⟨hgoes, _⟩
  · exact hw before hgroup
  · rw [hends _ ht] at hgoes
    cases hgoes

/-- A body with its end. -/
def closedBody (inProtocol : Bool) : Rule Unit := do
  body (memberCause inProtocol) inProtocol
  keyword .atEnd (endCause inProtocol)

theorem closedBody_courseAt (inProtocol : Bool) (s : ReadState) :
    CourseAt (closedBody inProtocol) s :=
  (body_courseAt _ _ s).bind fun _ s₁ => keyword_courseAt (by decide) _ s₁

theorem closedBody_passesAt (hw : ∀ before, InGroup before → w.hidden before)
    (hends : ∀ kind, w.wanted kind = true → endsBody kind = true) (hend : w.wanted .atEnd = false)
    (inProtocol : Bool) (s : ReadState) : PassesAt w allowed (closedBody inProtocol) s := by
  have hbody : PassesAt w allowed (body (memberCause inProtocol) inProtocol) s :=
    .state ((memberList_passesAt hw hends _ _ _ s).bind fun _ s₁ => .modify (.of_eq rfl rfl))
  refine hbody.bind fun _ s₁ => ?_
  have hkeyword : PassesAt w allowed (expect .atEnd (endCause inProtocol)) s₁ :=
    ends_expect.mpr ⟨fun hc => .advance (by rw [hc]; exact hend), fun _ => .refl s₁⟩
  exact hkeyword.bind fun span s₂ => .leaf _ span s₂

theorem declarationParts_eq (inProtocol : Bool) :
    declarationParts inProtocol = head inProtocol >>= fun _ => closedBody inProtocol := by
  unfold declarationParts closedBody body
  simp only [bind_assoc]
  rfl

/-! ## Rounds -/

/-- The places where an `@interface` may be passed over: `d` is the token at which the round was made,
    and `inside` are the tokens between this one and the `@interface`. -/
inductive Hides (d : Token) (inside : List Token) : Prop where
  /-- In a declaration that only names classes, before its semicolon. -/
  | namedClass (directive : d.kind = .atClass) (endless : ∀ u ∈ inside, u.kind ≠ .semicolon)
  /-- The same with protocols. There is a comma behind the name of the first one. -/
  | namedProtocol {name comma : Token} {more : List Token} (directive : d.kind = .atProtocol)
      (names : inside = name :: comma :: more) (first : name.kind = .identifier)
      (second : comma.kind = .comma) (endless : ∀ u ∈ inside, u.kind ≠ .semicolon)
  /-- In an implementation, before its end. -/
  | implementation (directive : d.kind = .atImplementation)
      (endless : ∀ u ∈ inside, u.kind ≠ .atEnd)
  /-- In the instance variables of a class. -/
  | variableBlock (directive : d.kind = .atInterface) (braces : InBraces inside)
  /-- In the attributes of a method. -/
  | attributes (directive : d.kind = .atInterface ∨ d.kind = .atProtocol) (group : InGroup inside)

/-- The directives of classes, and where the rule of a class or a protocol may pass over one. -/
def interfaces (inProtocol : Bool) : Watch where
  wanted kind := kind == .atInterface
  hidden before := InGroup before ∨ (inProtocol = false ∧ InBraces before)
  directive kind h := by rw [beq_iff_eq.mp h]; rfl
  behind front _ h := h.imp (InGroup.behind front) (.imp_right (InBraces.behind front))

/-- What the loop over declarations makes of a token and of the tokens behind it in one round. -/
structure DeclarationTurn (d : Token) (inside : List Token) (ns : List Node) : Prop where
  starts : ∀ n ∈ ns, n.StartsWith d
  interface : d.kind = .atInterface → ∃ n ∈ ns, isDeclared false n.kind
  hides : ∀ before t after, inside = before ++ t :: after → t.kind = .atInterface → Hides d before

/-- The round lays the nodes of a turn. -/
def TakesTurn (r : Rule Unit) (d : Token) (s : ReadState) : Prop :=
  Ends True r s (fun _ s' => ∃ inside ns, Lays s (d :: inside) none ns s' ∧
    DeclarationTurn d inside ns) fun _ _ => False

variable {d : Token} {rest : List Token}

/-- Skipping to a token of some kind, and over it. -/
theorem ends_skipThenEat {kind : TokenKind} (hr : s.rest = d :: rest) (hd : d.kind ≠ kind)
    (hkind : kind ≠ .endOfFile) : Ends True (do
      modify (·.skipUntil (· == kind))
      let _ ← eat kind) s
      (fun _ s' => ∃ inside, Lays s (d :: inside) none [] s' ∧ rest = inside ++ s'.rest ∧
        ∀ before t after, inside = before ++ t :: after → t.kind ≠ kind →
          ∀ u ∈ before, u.kind ≠ kind)
      fun _ _ => False := by
  obtain ⟨skipped, hskip, hrest, hgo, hstop⟩ := lays_skipUntil (· == kind) s
  refine ends_bind.mpr (ends_modify.mpr ?_)
  generalize s.skipUntil (· == kind) = v at hskip hrest hstop ⊢
  have hgo : ∀ u ∈ skipped, u.kind ≠ kind := fun u hu => by simpa using hgo u hu
  obtain ⟨inside, rfl, hinside⟩ : ∃ inside, skipped = d :: inside ∧ rest = inside ++ v.rest := by
    rw [hr] at hrest
    rcases skipped with _ | ⟨x, inside⟩
    · rw [List.nil_append] at hrest
      rw [ReadState.current, ← hrest] at hstop
      rcases hstop with hnil | hstop
      · cases hnil
      · exact absurd (beq_iff_eq.mp hstop) hd
    · obtain ⟨rfl, hinside⟩ := List.cons.inj hrest
      exact ⟨inside, rfl, hinside⟩
  refine ends_bind.mpr (ends_eat.mpr ⟨fun hc => ?_, fun _ => ⟨inside, hskip, hinside, ?_⟩⟩)
  · obtain ⟨last, more, hlast, hkind⟩ := ReadState.exists_cons_of_current hc hkind
    refine ⟨inside ++ [last], hskip.trans (.next hlast), ?_, fun before t after he ht u hu => ?_⟩
    · rw [hinside, hlast, ReadState.rest_advance, hlast, List.append_assoc]
      rfl
    rcases cons_of_append_eq he with ⟨more, rfl⟩ | ⟨_, _, hend⟩
    · exact hgo u (by simp [hu])
    · rcases List.cons_eq_append_iff.mp hend with ⟨_, hcons⟩ | ⟨_, _, hnil⟩
      · obtain ⟨rfl, _⟩ := List.cons.inj hcons
        exact absurd hkind ht
      · simp at hnil
  · rintro before t after rfl _ u hu
    exact hgo u (by simp [hu])

/-- A round that lays nothing takes a turn if the tokens are passed over for a reason. -/
theorem DeclarationTurn.of_nil {inside : List Token} (hd : d.kind ≠ .atInterface)
    (h : ∀ before t after, inside = before ++ t :: after → t.kind = .atInterface →
      Hides d before) : DeclarationTurn d inside [] :=
  ⟨by simp, fun hc => absurd hc hd, h⟩

theorem skipDeclaration_class_turn (hr : s.rest = d :: rest) (hd : d.kind = .atClass) :
    TakesTurn skipDeclaration d s := by
  refine (ends_skipThenEat hr (by rw [hd]; decide) (by decide)).mono ?_ fun _ _ h => h
  rintro _ s' ⟨inside, hlays, _, hopen⟩
  exact ⟨inside, [], hlays, .of_nil (by rw [hd]; decide) fun before t after he ht =>
    .namedClass hd (hopen before t after he (by rw [ht]; decide))⟩

theorem skipImplementation_turn (hr : s.rest = d :: rest) (hd : d.kind = .atImplementation) :
    TakesTurn skipImplementation d s := by
  refine (ends_skipThenEat hr (by rw [hd]; decide) (by decide)).mono ?_ fun _ _ h => h
  rintro _ s' ⟨inside, hlays, _, hopen⟩
  exact ⟨inside, [], hlays, .of_nil (by rw [hd]; decide) fun before t after he ht =>
    .implementation hd (hopen before t after he (by rw [ht]; decide))⟩

theorem skipDeclaration_protocol_turn (hr : s.rest = d :: rest) (hd : d.kind = .atProtocol)
    (hforward : isForwardProtocol s = true) : TakesTurn skipDeclaration d s := by
  refine (ends_skipThenEat hr (by rw [hd]; decide) (by decide)).mono ?_ fun _ _ h => h
  rintro _ s' ⟨inside, hlays, rfl, hopen⟩
  refine ⟨inside, [], hlays, .of_nil (by rw [hd]; decide) fun before t after he ht => ?_⟩
  have hendless := hopen before t after he (by rw [ht]; decide)
  unfold isForwardProtocol ReadState.second ReadState.third at hforward
  rw [hr, he] at hforward
  -- The two tokens that show that the protocol is only named stand in front of the directive.
  rcases before with _ | ⟨name, _ | ⟨mark, more⟩⟩
  · simp [kindOf, ht] at hforward
  · simp [kindOf, ht] at hforward
  · simp only [kindOf, List.cons_append, List.drop_succ_cons, List.drop_zero, Bool.and_eq_true,
      Bool.or_eq_true, beq_iff_eq] at hforward
    exact .namedProtocol hd rfl hforward.1 (hforward.2.resolve_left (hendless mark (by simp))) hendless

/-- A broken declaration is skipped up to what may end a body, and over an `@end` there. -/
theorem ends_recoverDeclaration {r : Rule Unit} {P : ReadState → Prop}
    (h : Ends True r s (fun _ u => P u) fun _ u => P u) : Ends True (recoverDeclaration r) s
      (fun _ s' => ∃ u skipped, P u ∧ Lays u skipped none [] s' ∧
        ∀ t ∈ skipped, t.kind ≠ .atInterface) fun _ _ => False := by
  unfold Ends at h ⊢
  unfold recoverDeclaration
  cases hr : r s with
  | done a u =>
    rw [hr] at h
    exact ⟨u, [], h, .of_nodes rfl (.refl _) rfl, by simp⟩
  | failed e u =>
    rw [hr] at h
    obtain ⟨skipped, hskip, hstop⟩ := lays_reportThenSkip endsBody u e
    have hskipped : ∀ t ∈ skipped, t.kind ≠ .atInterface := fun t ht hc => by
      have hgo := hstop t ht
      rw [hc] at hgo
      cases hgo
    show Ends True (do let _ ← eat .atEnd) ((u.report e).skipUntil endsBody) _ _
    generalize (u.report e).skipUntil endsBody = v at hskip ⊢
    refine ends_bind.mpr (ends_eat.mpr ⟨fun hc => ?_, fun _ => ⟨u, skipped, h, hskip, hskipped⟩⟩)
    obtain ⟨last, more, hlast, hkind⟩ := ReadState.exists_cons_of_current hc (by decide)
    refine ⟨u, skipped ++ [last], h, hskip.trans (.next hlast), fun t ht => ?_⟩
    rcases List.mem_append.mp ht with ht | ht
    · exact hskipped t ht
    · rw [List.mem_singleton.mp ht, hkind]
      decide
  | broken fault => trivial

/-- Behind its directive a class or a protocol passes over directives of classes in braces and in
    attributes only. -/
theorem declaration_lays (inProtocol : Bool) (hr : s.rest = d :: rest) :
    Ends True (declaration inProtocol) s
      (fun _ u => LaysNode (interfaces inProtocol) (isDeclared inProtocol) d (.keyword d.kind) s u)
      fun _ u => LaysNode (interfaces inProtocol) (isDeclared inProtocol) d (.keyword d.kind) s u := by
  rw [declaration_eq, declarationParts_eq, head_eq, bind_assoc]
  refine ends_withNode_lays (f := fun _ => headRest inProtocol >>= fun _ => closedBody inProtocol)
    (by cases inProtocol <;> trivial) (ends_keywordHere hr) (fun s₁ => ?_) fun s₁ => ?_
  · exact (headRest_courseAt inProtocol s₁).bind fun _ s₂ => closedBody_courseAt inProtocol s₂
  · refine (headRest_passesAt (fun hclass before h => Or.inr ⟨hclass, h⟩) s₁).bind fun _ s₂ => ?_
    refine closedBody_passesAt (fun before h => Or.inl h) (fun kind hw => ?_) rfl inProtocol s₂
    rw [beq_iff_eq.mp hw]
    rfl

theorem recoverDeclaration_turn (inProtocol : Bool) (hr : s.rest = d :: rest)
    (hd : d.kind = if inProtocol then .atProtocol else .atInterface) :
    TakesTurn (recoverDeclaration (declaration inProtocol)) d s := by
  refine (ends_recoverDeclaration (declaration_lays inProtocol hr)).mono ?_ fun _ _ h => h
  rintro _ s' ⟨u, skipped, ⟨own, n, span, hlays, hkind, _, _, hown, hstarts⟩, hskip, hskipped⟩
  refine ⟨own ++ skipped, [n], hlays.trans hskip, ?_, ?_, fun before t after he ht => ?_⟩
  · intro m hm
    rw [List.mem_singleton.mp hm]
    exact hstarts
  · intro hc
    cases inProtocol with
    | false => exact ⟨n, by simp, hkind⟩
    | true => rw [hd] at hc; cases hc
  · rcases cons_of_append_eq he with ⟨more, hmore⟩ | ⟨more, _, hmore⟩
    · rcases hown before t more hmore (beq_iff_eq.mpr ht) with hgroup | ⟨rfl, hbraces⟩
      · refine .attributes ?_ hgroup
        cases inProtocol with
        | false => exact Or.inl hd
        | true => exact Or.inr hd
      · exact .variableBlock hd hbraces
    · exact absurd ht (hskipped t (by rw [hmore]; simp))

theorem declarationRound_turn (hr : s.rest = d :: rest) :
    TakesTurn (declarationRound d.kind (isForwardProtocol s)) d s := by
  unfold declarationRound
  split
  · next hd => exact recoverDeclaration_turn false hr hd
  · next hd =>
    refine ends_ite.mpr ⟨fun hforward => skipDeclaration_protocol_turn hr hd hforward, fun _ => ?_⟩
    exact recoverDeclaration_turn true hr hd
  · next hd => exact skipDeclaration_class_turn hr hd
  · next hd => exact skipImplementation_turn hr hd
  · next hd _ _ _ =>
    exact ends_bind.mpr (ends_advance.mpr ⟨[], [], .next hr, .of_nil hd (by simp)⟩)

/-! ## Runs -/

/-- The loop over declarations comes from the state to a round at another token that passes over this
    one. -/
def PassesOver (s : ReadState) (t : Token) : Prop :=
  ∃ u v d rest inside after, ComesTo s u ∧ u.rest = d :: rest ∧
    declarationRound u.current (isForwardProtocol u) u = .done () v ∧
    v.passed = (d :: inside ++ t :: after).reverse ++ u.passed ∧ Hides d inside

/-- A round that passes over a directive is made at a directive. -/
theorem Hides.directive {inside : List Token} (h : Hides d inside) : d.kind.isAtKeyword = true := by
  cases h with
  | namedClass hd _ => rw [hd]; rfl
  | namedProtocol hd _ _ _ _ => rw [hd]; rfl
  | implementation hd _ => rw [hd]; rfl
  | variableBlock hd _ => rw [hd]; rfl
  | attributes hd _ => rcases hd with hd | hd <;> rw [hd] <;> rfl

/-- Up to the end of the file every directive of a class starts a node of its own, or is passed
    over. -/
theorem declarations_interfaces (fuel : Nat) : ∀ s : ReadState, Ends True (declarations fuel) s
    (fun _ s' => s'.current = .endOfFile ∧ ∃ front cs, Lays s front none cs s' ∧
      ∀ t ∈ front, t.kind = .atInterface →
        (∃ n ∈ cs, isDeclared false n.kind ∧ n.StartsWith t) ∨ PassesOver s t)
    fun _ _ => False := by
  induction fuel with
  | zero => exact fun _ => trivial
  | succ fuel ih =>
    intro s
    by_cases hfile : s.current = .endOfFile
    · rw [declarations_succ]
      refine ends_bind.mpr (ends_state.mpr (ends_ite.mpr ⟨fun _ => ?_, fun h => absurd hfile h⟩))
      exact ⟨hfile, [], [], .of_nodes rfl (.refl _) rfl, by simp⟩
    obtain ⟨d, rest, hr, hd⟩ := ReadState.exists_cons_of_current rfl hfile
    unfold Ends
    rw [declarations_round hfile]
    refine ends_bind.mpr ?_
    have hturn := declarationRound_turn hr
    rw [hd] at hturn
    unfold TakesTurn Ends at hturn
    unfold Ends
    cases hround : declarationRound s.current (isForwardProtocol s) s with
    | broken fault => trivial
    | failed e u => rw [hround] at hturn; exact hturn
    | done _ u =>
      rw [hround] at hturn
      obtain ⟨inside, ns, hlays, hturn⟩ := hturn
      refine (ih u).mono ?_ fun _ _ h => h
      rintro _ s' ⟨hend, front, cs, hlays', hfind⟩
      refine ⟨hend, _, _, hlays.trans hlays', fun t ht htk => ?_⟩
      rcases List.mem_append.mp ht with ht | ht
      · rcases List.mem_cons.mp ht with rfl | ht
        · obtain ⟨n, hn, hkind⟩ := hturn.interface htk
          exact Or.inl ⟨n, List.mem_append_left cs hn, hkind, hturn.starts n hn⟩
        · obtain ⟨before, after, rfl⟩ := List.append_of_mem ht
          exact Or.inr ⟨s, u, d, rest, before, after, .refl s, hr, hround, hlays.passed,
            hturn.hides before t after rfl htk⟩
      · rcases hfind t ht htk with ⟨n, hn, hstarts⟩ | ⟨v, v', d', rest', inside', after, hcomes, hpass⟩
        · exact Or.inl ⟨n, List.mem_append_right ns hn, hstarts⟩
        · exact Or.inr ⟨v, v', d', rest', inside', after, .round hfile hround hcomes, hpass⟩

end HeaderBridge.Grammar
