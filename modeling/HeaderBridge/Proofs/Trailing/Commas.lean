/-
  A comma in front of the closing delimiter of a list, in a header that is read without an error. What
  stands in front of the comma is read as it is without it, the list or the type in which it stands
  meets its place, and what follows is read alike. So the comma costs one error, and the tree is the
  same but for the leaf of the comma, in a list of which the tree shows the delimiters.
-/
import HeaderBridge.Proofs.Printing.Rules
import HeaderBridge.Proofs.Trailing.Lists
import HeaderBridge.Proofs.Trailing.TypeNames

namespace HeaderBridge

namespace Grammar

open ReadState (kindOf)
open Bare (bare)
open Rule

variable {spot : Spot}

/-! ## Types in the fields of a node -/

theorem avoidsKind_property {data : PropertyData}
    (h : ∀ t, data.type = .valid t → spot.AvoidsType t) : spot.AvoidsKind (.property data) := by
  refine ⟨rfl, fun t ht => h t ?_⟩
  have hvalue : data.type.value? = some t := Option.mem_toList.mp ht
  cases hslot : data.type with
  | missing => rw [hslot] at hvalue; cases hvalue
  | invalid place => rw [hslot] at hvalue; cases hvalue
  | valid value => rw [hslot] at hvalue; cases hvalue; rfl

theorem avoidsKind_method {data : MethodData} {found : Selector}
    (hvalid : data.selector = .valid found) (hreturns : ∀ t ∈ data.returns, spot.AvoidsType t)
    (hfound : ∀ t ∈ found.types, spot.AvoidsType t) : spot.AvoidsKind (.method data) := by
  refine ⟨rfl, fun t ht => ?_⟩
  rcases List.mem_append.mp ht with ht | ht
  · exact hreturns t (Option.mem_toList.mp ht)
  · rw [hvalid] at ht
    obtain ⟨_, hmem, htypes⟩ := List.mem_flatMap.mp ht
    obtain rfl := List.mem_singleton.mp hmem
    exact hfound t htypes

/-- A type name that is read without an error meets the place, or its type does not lie over it. -/
theorem typeName_misses_or_meets {s u : ReadState} {t : TypeName} (hs : spot.Misses s)
    (hneat : Neatly typeName s t u) (hbehind : kindOf u.rest ∈ [.rightParen, .identifier]) :
    (spot.Misses u ∧ spot.AvoidsType t) ∨ spot.Meets typeName s t u := by
  by_cases hspans : spot.shown = false ∧ t.Spans spot.place
  · exact .inr (typeName_meets hs hneat hspans.2 hspans.1 hbehind)
  · obtain ⟨_, htakes, -⟩ := (typeName_writesNeatly s).writes hneat
    have hforward := ((typeName_courseAt s).of_done hneat.done).passage.forward
    have hmisses : spot.Misses u := by
      refine hs.of_forward hforward htakes.speculating ?_
      rw [htakes.eq_past]
      exact hs.opened
    exact .inl ⟨hmisses, fun hhidden h => hspans ⟨hhidden, h⟩⟩

/-! ## Properties -/

theorem current_of_identifier {cause : SyntaxError.Cause} {s t : ReadState} {name : Ident}
    (h : identifier cause s = .done name t) : s.current = .identifier := by
  unfold identifier at h
  by_contra hc
  rw [if_neg hc] at h
  cases h

theorem current_of_propertyModifier {s t : ReadState} {a : Unit}
    (h : propertyModifier s = .done a t) : s.current = .identifier := by
  obtain ⟨_, _, hname, -⟩ := exists_of_bind h
  exact current_of_identifier hname

theorem propertyModifier_passesBy (s : ReadState) : PassesBy spot propertyModifier s := by
  unfold propertyModifier
  have last : ∀ (name : Ident) (value : Option String) t, PassesBy spot (do
      let value ← pure value
      leafFrom (.modifier ⟨name.name, value⟩) name.span.start) t := fun name value t =>
    .leafFrom (.of_nil rfl rfl) _ t
  refine (MissesAt.identifier _ s).bind fun name s₁ _ => (MissesAt.eat .eq s₁).bind fun eq s₂ _ => ?_
  refine .ite (fun _ => ?_) fun _ => last name none s₂
  exact (MissesAt.identifier _ s₂).bind fun accessor s₃ _ => (MissesAt.eat .colon s₃).bind
    fun colon s₄ _ => last name _ s₄

theorem modifierList_meetsAt (s : ReadState) :
    MeetsAt spot (fun _ => True) modifierList modifierList s := by
  have hframes : ∀ s, FramesAt itemEnd propertyModifier propertyModifier s :=
    propertyModifier_framesAt (tells_itemEnd (by decide)) (tells_itemEnd (by decide))
  refine .withNode (.of_nil rfl rfl) ((list_meetsAt (.inr rfl) (.inr rfl)
    current_of_propertyModifier hframes propertyModifier_passesBy _).bind ?_ ?_ ?_)
  · exact FramesAt.list (by decide) (by decide)
      (propertyModifier_framesAt (tells_ahead _) (tells_ahead _)) _
  · exact fun _ t _ => .of_misses (.refl t) (.pure trivial)
  · exact fun _ _ t t' _ => .pure rfl t t'

theorem propertyName_passesBy (type : Slot TypeName) (s : ReadState) :
    PassesBy spot (propertyName type) s := by
  unfold propertyName
  refine .state (.ite (fun _ => ?_) fun _ => (MissesAt.identifier _ s).recover _)
  exact (MissesAt.reads (.skipUntil _ s)).bind fun _ s₁ _ => .pure trivial

theorem propertyEnd_passesBy (isOptional : Bool) {type : Slot TypeName}
    (h : ∀ t, type = .valid t → spot.AvoidsType t) (name : Slot Ident) (s : ReadState) :
    PassesBy spot (propertyEnd isOptional type name) s := by
  refine (MissesAt.setKind (avoidsKind_property h) s).bind fun _ s₁ _ =>
    .state (.ite (fun _ => .pure trivial) fun _ => ?_)
  exact .expectLeaf (.of_nil rfl rfl) _ _ s₁

/-- Behind a type that is read without an error stands the name of the property. -/
theorem propertyFields_meetsAt (isOptional : Bool) (s : ReadState) :
    MeetsAt spot (fun _ => True) (propertyFields isOptional) (propertyFields isOptional) s := by
  refine .bindNeat (P := fun type => ∀ t, type = .valid t → spot.AvoidsType t)
    ((typeName_framesAt s).recover _) (fun {type u a v} hs hneat hbehind => ?_) ?_ ?_
  · obtain ⟨t, rfl, htype⟩ := hneat.of_recover (typeName_framesAt s).keeps
    have hname : kindOf u.rest = .identifier := by
      obtain ⟨name, w, hname, -⟩ := hbehind.of_bind (propertyName_framesAt (.valid t) u).keeps
        fun name w => keeping_of_agreeAt (propertyEnd_agreeAt isOptional rfl rfl w w)
      rw [propertyName_valid] at hname
      obtain ⟨_, -, hname⟩ := hname.of_recover (.identifier _ u)
      exact current_of_identifier hname.done
    refine (typeName_misses_or_meets hs htype (by rw [hname]; decide)).imp ?_ fun h => h.recover _
    rintro ⟨hmisses, havoids⟩
    refine ⟨hmisses, fun t' ht' => ?_⟩
    cases ht'
    exact havoids
  · intro type u htype
    refine .bindPassing (propertyName_passesBy type u) (propertyName_framesAt type u) fun name v => ?_
    exact .of_misses (keeping_of_agreeAt (propertyEnd_agreeAt isOptional rfl rfl v v))
      (propertyEnd_passesBy isOptional htype name v)
  · exact fun _ _ u u' htype => (propertyName_agreeAt htype u u').bind fun _ _ v v' hname =>
      propertyEnd_agreeAt isOptional htype hname v v'

theorem propertyParts_meetsAt (isOptional : Bool) (s : ReadState) :
    MeetsAt spot (fun _ => True) (propertyParts isOptional) (propertyParts isOptional) s := by
  refine .bindPassing (.keywordHere s) (.keywordHere s) fun _ s₁ => .state fun s₁' hlooks =>
    .ite (by rw [hlooks.current_eq]) (fun _ => ?_) fun _ => propertyFields_meetsAt isOptional s₁
  exact (modifierList_meetsAt s₁).bind (modifierList_framesAt s₁)
    (fun _ s₂ _ => propertyFields_meetsAt isOptional s₂)
    fun _ _ s₂ s₂' _ => propertyFields_agreeAt isOptional s₂ s₂'

theorem property_meetsAt (s : ReadState) : MeetsAt spot (fun _ => True) property property s := by
  rw [property_eq]
  refine .state fun s' hlooks => ?_
  rw [hlooks.inOptional_eq]
  exact .withNode (.of_nil rfl rfl) (propertyParts_meetsAt _ _)

/-! ## Methods -/

/-- Behind a type in parentheses that is read without an error stands the closing one. -/
theorem parenthesizedType_meetsAt (s : ReadState) :
    MeetsAt spot spot.AvoidsType parenthesizedType parenthesizedType s := by
  refine .bindPassing (.advance s) (.advance s) fun _ s₁ => .bindNeat (P := spot.AvoidsType)
    (typeName_framesAt s₁) (fun {t u a v} hs hneat hbehind => ?_) ?_ ?_
  · obtain ⟨_, w, hclosing, -⟩ := exists_of_bind hbehind.done
    have hkind : u.current = .rightParen := by
      by_contra hc
      rw [expect, if_neg hc] at hclosing
      cases hclosing
    exact typeName_misses_or_meets hs hneat (by rw [show kindOf u.rest = _ from hkind]; decide)
  · refine fun t u havoids => .of_misses ((FramesAt.expect (by decide) _ u :
      FramesAt ahead _ _ u).keeps.bind fun _ v => .refl v) ?_
    exact (MissesAt.expect _ _ u).bind fun _ v _ => .pure havoids
  · exact fun _ _ u u' h => (AgreeAt.expect _ _ u u').bind fun _ _ v v' _ => .pure h v v'

theorem optionalType_meetsAt (s : ReadState) : MeetsAt spot
    (fun type => ∀ t ∈ type, spot.AvoidsType t) optionalType optionalType s := by
  refine .state fun s' hlooks => .ite (by rw [hlooks.current_eq]) (fun _ => ?_) fun _ => ?_
  · refine (parenthesizedType_meetsAt s).map (parenthesizedType_framesAt s) ?_ ?_
    · rintro t havoids _ ⟨⟩
      exact havoids
    · exact fun _ _ h => congrArg some h
  · exact .of_misses (.refl s) (.pure nofun)

theorem keywordParts_meetsAt (fuel : Nat) : ∀ fuel' keyword (read : Array KeywordPart) (s : ReadState),
    (∀ p ∈ read, ∀ t ∈ p.type, spot.AvoidsType t) →
    MeetsAt spot (fun parts => ∀ p ∈ parts, ∀ t ∈ p.type, spot.AvoidsType t)
      (keywordParts fuel keyword read) (keywordParts fuel' keyword read) s := by
  induction fuel with
  | zero => exact fun _ _ _ _ _ => .breakWith _ _
  | succ fuel ih =>
    intro fuel' keyword read s hread
    apply MeetsAt.onFuel fuel'
    · rfl
    intro fuel'
    rw [keywordParts_succ, keywordParts_succ]
    refine .bindPassing (.advance s) (.advance s) fun _ s₁ => (optionalType_meetsAt s₁).bind
      (optionalType_framesAt s₁) (fun type s₂ htype => ?_) fun _ _ s₂ s₂' h =>
        partsFromName_agreeAt (keywordParts_agreeAt fuel fuel') rfl rfl h s₂ s₂'
    refine .bindPassing (.identifier _ s₂) (.identifier _ s₂) fun name s₃ => .state fun s₃' hlooks => ?_
    have hmore : ∀ p ∈ read.push ⟨keyword, type, name⟩, ∀ t ∈ p.type, spot.AvoidsType t := by
      intro p hp
      rcases Array.mem_push.mp hp with hp | rfl
      · exact hread p hp
      · exact htype
    refine .ite ?_ (fun _ => ?_) fun _ => .ite ?_ (fun _ => ih fuel' _ _ s₃ hmore) fun _ => ?_
    · rw [hlooks.current_eq]
      by_cases hc : s₃.current = .identifier
      · rw [hlooks.second_eq (by rw [hc]; decide) (by rw [hc]; decide)]
      · simp [hc]
    · exact .bindPassing (.identifier _ s₃) (.identifier _ s₃) fun next s₄ => ih fuel' _ _ s₄ hmore
    · rw [hlooks.current_eq]
    · exact .of_misses (.refl s₃) (.pure hmore)

theorem variadicMark_passesBy (s : ReadState) : PassesBy spot variadicMark s :=
  (MissesAt.eat _ s).bind fun _ s₁ _ => .ite (fun _ => .reads (.readWhile _ s₁)) fun _ => .pure trivial

theorem selectorFrom_meetsAt (first : Option Ident) (s : ReadState) : MeetsAt spot
    (fun found => ∀ t ∈ found.types, spot.AvoidsType t) (selectorFrom first) (selectorFrom first)
      s := by
  refine .state fun s' hlooks => .ite (by rw [hlooks.current_eq]) (fun _ => ?_) fun _ => ?_
  · refine (keywordParts_meetsAt _ _ first #[] s nofun).bind (keywordParts_framesAt _ _ _ _ s) ?_ ?_
    · refine fun parts s₁ hparts => .of_misses ((variadicMark_framesAt s₁).keeps.bind
        fun _ s₂ => .refl s₂) ((variadicMark_passesBy s₁).bind fun _ s₂ _ => .pure fun t ht => ?_)
      obtain ⟨p, hp, htype⟩ := List.mem_filterMap.mp ht
      exact hparts p (Array.mem_toList_iff.mp hp) t htype
    · exact fun _ _ s₁ s₁' h => (variadicMark_agreeAt s₁ s₁').bind fun _ _ s₂ s₂' _ =>
        .pure (congrArg Selector.keywords (AgreeAt.bare_toList h)) s₂ s₂'
  · cases first with
    | some name => exact .of_misses (.refl s) (.pure nofun)
    | none => exact .of_misses ⟨.refl s, rfl⟩ (.failHere _)

theorem selector_meetsAt (s : ReadState) : MeetsAt spot
    (fun found => ∀ t ∈ found.types, spot.AvoidsType t) selector selector s := by
  refine .state fun s' hlooks => .ite (by rw [hlooks.current_eq]) (fun _ => ?_) fun _ => ?_
  · refine .bindPassing ?_ ((FramesAt.identifier _ s).map some) fun first s₁ =>
      selectorFrom_meetsAt first s₁
    exact (MissesAt.identifier _ s).bind fun _ s₁ _ => .pure trivial
  · exact .bindPassing (.pure trivial) (.pure none s) fun first s₁ => selectorFrom_meetsAt first s₁

theorem methodEnd_passesBy (start : MethodData) {returns : Option TypeName} {found : Selector}
    (hreturns : ∀ t ∈ returns, spot.AvoidsType t) (hfound : ∀ t ∈ found.types, spot.AvoidsType t)
    (s : ReadState) : PassesBy spot (methodEnd start returns found) s :=
  (MissesAt.setKind (avoidsKind_method rfl hreturns hfound) s).bind fun _ s₁ _ =>
    (MissesAt.reads (reads_readAttributes _ s₁)).bind fun _ s₂ _ =>
    .expectLeaf (.of_nil rfl rfl) _ _ s₂

theorem methodParts_meetsAt (start : MethodData) {s : ReadState}
    (hsign : s.current = .plus ∨ s.current = .minus) :
    MeetsAt spot (fun _ => True) (methodParts start) (methodParts start) s := by
  have hsign : (NodeKind.token s.current).isCloser = false := by
    rcases hsign with h | h <;> rw [h] <;> rfl
  refine .bindPassing (.punctuationHere hsign) (.punctuationHere s) fun _ s₁ => ?_
  refine (optionalType_meetsAt s₁).bind (optionalType_framesAt s₁) (fun returns s₂ hreturns => ?_) ?_
  · refine (selector_meetsAt s₂).bind (selector_framesAt s₂) (fun found s₃ hfound => ?_) ?_
    · exact .of_misses (keeping_of_agreeAt (methodEnd_agreeAt start rfl rfl s₃ s₃))
        (methodEnd_passesBy start hreturns hfound s₃)
    · exact fun _ _ s₃ s₃' hfound => methodEnd_agreeAt start rfl hfound s₃ s₃'
  · exact fun _ _ s₂ s₂' hreturns => (selector_agreeAt s₂ s₂').bind fun _ _ s₃ s₃' hfound =>
      methodEnd_agreeAt start hreturns hfound s₃ s₃'

theorem method_meetsAt {s : ReadState} (hsign : s.current = .plus ∨ s.current = .minus) :
    MeetsAt spot (fun _ => True) method method s := by
  rw [method_eq]
  refine .state fun s' hlooks => ?_
  rw [hlooks.current_eq, hlooks.inOptional_eq]
  exact .withNode (.of_nil rfl rfl) (methodParts_meetsAt _ hsign)

/-! ## Bodies -/

theorem memberRound_meetsAt (cause : SyntaxError.Cause) (inProtocol : Bool) (s : ReadState) :
    MeetsAt spot (fun _ => True) (memberRound cause inProtocol s.current)
      (memberRound cause inProtocol s.current) s := by
  have recovers : ∀ {r : Rule Unit}, MeetsAt spot (fun _ => True) r r s →
      MeetsAt spot (fun _ => True) (recoverMember r) (recoverMember r) s := fun {r} h =>
    h.rescue (.recoverMember h.keeps) (rescues_recoverMember r) (rescues_recoverMember r)
  have enters : ∀ inOptional : Bool, MeetsAt spot (fun _ => True) (do
      modify fun s => { s with inOptional }
      keywordHere) (do
      modify fun s => { s with inOptional }
      keywordHere) s := fun inOptional => by
    refine .of_misses ((FramesAt.enter inOptional s : FramesAt ahead _ _ s).keeps.bind
      fun _ s₁ => (FramesAt.keywordHere s₁ : FramesAt ahead _ _ s₁).keeps) ?_
    exact (MissesAt.enter inOptional s).bind fun _ s₁ _ => .keywordHere s₁
  have unknown : MeetsAt spot (fun _ => True) (unknownMember cause) (unknownMember cause) s :=
    .of_not_neatly (keeping_of_agreeAt (unknownMember_agreeAt cause s s)) fun _ _ hneat =>
      FramesAt.not_neatly_report rfl (keeping_of_agreeAt (skipMember_agreeAt _ _)) hneat.of_state
  unfold memberRound
  split
  · exact recovers (property_meetsAt s)
  · next hsign => exact recovers (method_meetsAt (.inl hsign))
  · next hsign => exact recovers (method_meetsAt (.inr hsign))
  · exact .ite Iff.rfl (fun _ => enters _) fun _ => unknown
  · exact .ite Iff.rfl (fun _ => enters _) fun _ => unknown
  · exact unknown

theorem memberList_meetsAt (cause : SyntaxError.Cause) (inProtocol : Bool) (fuel : Nat) :
    ∀ fuel' (s : ReadState), MeetsAt spot (fun _ => True) (memberList cause inProtocol fuel)
      (memberList cause inProtocol fuel') s := by
  induction fuel with
  | zero => intro _ s; exact .breakWith _ _
  | succ fuel ih =>
    intro fuel' s
    apply MeetsAt.onFuel fuel'
    · rfl
    intro fuel'
    rw [memberList_succ, memberList_succ]
    refine .state fun s' hlooks => ?_
    rw [hlooks.current_eq]
    refine .ite Iff.rfl (fun _ => .of_misses (.refl s) (.pure trivial)) fun _ => ?_
    exact (memberRound_meetsAt cause inProtocol s).bind (memberRound_framesAt cause inProtocol _ s)
      (fun _ s₁ _ => ih fuel' s₁) fun _ _ s₁ s₁' _ => memberList_agreeAt _ _ _ _ s₁ s₁'

theorem bodyFrom_meetsAt (inProtocol : Bool) (fuel fuel' : Nat) (s : ReadState) :
    MeetsAt spot (fun _ => True) (bodyFrom inProtocol fuel) (bodyFrom inProtocol fuel') s := by
  refine (memberList_meetsAt _ _ _ _ s).bind (memberList_framesAt _ _ _ _ s) (fun _ s₁ _ => ?_)
    fun _ _ s₁ s₁' _ => (AgreeAt.enter false s₁ s₁').bind fun _ _ s₂ s₂' _ => .expectLeaf _ _ _ s₂ s₂'
  refine .of_misses (keeping_of_agreeAt ((AgreeAt.enter false s₁ s₁).bind fun _ _ s₂ s₂' _ =>
    .expectLeaf _ _ _ s₂ s₂')) ?_
  exact (MissesAt.enter false s₁).bind fun _ s₂ _ => .expectLeaf (.of_nil rfl rfl) _ _ s₂

/-! ## Declarations -/

theorem protocolList_meetsAt (s : ReadState) :
    MeetsAt spot (fun _ => True) protocolList protocolList s := by
  refine .withNode (.of_nil rfl rfl) ((list_meetsAt (.inl rfl) (.inl rfl)
    current_of_identifier (FramesAt.identifier _) (MissesAt.identifier _) _).bind ?_ ?_ ?_)
  · exact FramesAt.list (by decide) (by decide) (FramesAt.identifier _) _
  · exact fun names t _ => .of_misses (keeping_of_agreeAt (AgreeAt.setKind rfl t t))
      (.setKind (.of_nil rfl rfl) t)
  · exact fun _ _ t t' h => .setKind (congrArg NodeKind.protocolList h) t t'

theorem optionalProtocolList_meetsAt (s : ReadState) :
    MeetsAt spot (fun _ => True) optionalProtocolList optionalProtocolList s := by
  rw [optionalProtocolList_eq]
  refine .state fun s' hlooks => .ite (by rw [hlooks.current_eq]) (fun _ => ?_) fun _ => ?_
  · exact (protocolList_meetsAt s).rescue (keeping_recoveredList s) rescues_recoveredList
      rescues_recoveredList
  · exact .of_misses (.refl s) (.pure trivial)

theorem optionalSuperclass_passesBy (s : ReadState) : PassesBy spot optionalSuperclass s := by
  refine .state (.ite (fun hcolon => ?_) fun _ => .pure trivial)
  refine (MissesAt.punctuationHere (by rw [hcolon]; rfl)).bind
    fun _ s₁ _ => (MissesAt.identifier _ s₁).bind fun name s₂ _ => ?_
  have hkind : spot.AvoidsKind (.superclassName name) := .of_nil rfl rfl
  exact .leaf (fun _ => hkind.avoids rfl) s₂

theorem head_meetsAt (inProtocol : Bool) (s : ReadState) :
    MeetsAt spot (fun _ => True) (head inProtocol) (head inProtocol) s := by
  cases inProtocol with
  | false =>
    refine .bindPassing (.keywordHere s) (.keywordHere s) fun _ s₁ =>
      .bindPassing (.identifier _ s₁) (.identifier _ s₁) fun name s₂ =>
      .bindPassing (.setKind (.of_nil rfl rfl) s₂) (.setKind _ s₂) fun _ s₃ =>
      .bindPassing (optionalSuperclass_passesBy s₃) (optionalSuperclass_framesAt s₃) fun _ s₄ => ?_
    refine (optionalProtocolList_meetsAt s₄).bind (optionalProtocolList_framesAt s₄)
      (fun _ s₅ _ => ?_) fun _ _ s₅ s₅' _ => variableBlock_agreeAt s₅ s₅'
    exact .of_misses (variableBlock_framesAt s₅).keeps (.reads (AgreeAt.reads_optionalGroup _ _ s₅))
  | true =>
    exact .bindPassing (.keywordHere s) (.keywordHere s) fun _ s₁ =>
      .bindPassing (.identifier _ s₁) (.identifier _ s₁) fun name s₂ =>
      .bindPassing (.setKind (.of_nil rfl rfl) s₂) (.setKind _ s₂) fun _ s₃ => optionalProtocolList_meetsAt s₃

theorem declaration_meetsAt (inProtocol : Bool) (s : ReadState) :
    MeetsAt spot (fun _ => True) (declaration inProtocol) (declaration inProtocol) s := by
  rw [declaration_eq]
  have hkind : spot.AvoidsKind (declaredKind inProtocol) := by
    cases inProtocol <;> exact .of_nil rfl rfl
  refine .withNode hkind ((head_meetsAt inProtocol _).bind (head_framesAt inProtocol _) ?_ ?_)
  · exact fun _ s₁ _ => .state fun _ _ => bodyFrom_meetsAt inProtocol _ _ s₁
  · exact fun _ _ s₁ s₁' _ => .state (bodyFrom_agreeAt inProtocol _ _ s₁ s₁')

theorem skipThenEat_meetsAt (stop : TokenKind → Bool) {kind : TokenKind}
    (hkind : kind ≠ .endOfFile) (s : ReadState) : MeetsAt spot (fun _ => True) (do
      modify (·.skipUntil stop)
      let _ ← eat kind) (do
      modify (·.skipUntil stop)
      let _ ← eat kind) s := by
  refine .of_misses (skipThenEat_framesAt stop hkind s).keeps ?_
  exact (MissesAt.reads (.skipUntil stop s)).bind fun _ s₁ _ =>
    (MissesAt.eat kind s₁).bind fun _ s₂ _ => .pure trivial

theorem declarationRound_meetsAt (kind : TokenKind) (isForward : Bool) (s : ReadState) :
    MeetsAt spot (fun _ => True) (declarationRound kind isForward) (declarationRound kind isForward)
      s := by
  have recovers : ∀ inProtocol, MeetsAt spot (fun _ => True)
      (recoverDeclaration (declaration inProtocol)) (recoverDeclaration (declaration inProtocol)) s :=
    fun inProtocol => (declaration_meetsAt inProtocol s).rescue
      (keeping_of_agreeAt (AgreeAt.recoverDeclaration (declaration_agreeAt inProtocol s s)))
      (rescues_recoverDeclaration _) (rescues_recoverDeclaration _)
  unfold declarationRound
  split
  · exact recovers false
  · exact .ite Iff.rfl (fun _ => skipThenEat_meetsAt _ (by decide) s) fun _ => recovers true
  · exact skipThenEat_meetsAt _ (by decide) s
  · exact skipThenEat_meetsAt _ (by decide) s
  · exact .bindPassing (.advance s) (.advance s) fun _ s₁ => .of_misses (.refl s₁) (.pure trivial)

theorem declarations_meetsAt (fuel : Nat) : ∀ fuel' (s : ReadState),
    MeetsAt spot (fun _ => True) (declarations fuel) (declarations fuel') s := by
  induction fuel with
  | zero => intro _ s; exact .breakWith _ _
  | succ fuel ih =>
    intro fuel' s
    apply MeetsAt.onFuel fuel'
    · rfl
    intro fuel'
    rw [declarations_succ, declarations_succ]
    refine .state fun s' hlooks => .ite (by rw [hlooks.current_eq])
      (fun _ => .of_misses (.refl s) (.pure trivial)) fun _ => ?_
    rw [declarationRound_of_looks hlooks]
    exact (declarationRound_meetsAt _ _ s).bind (declarationRound_framesAt _ _ s)
      (fun _ s₁ _ => ih fuel' s₁) fun _ _ s₁ s₁' _ => declarations_agreeAt fuel fuel' s₁ s₁'

/-- A header that is read without an error misses the place, or it is read in front of a comma there
    as it is without it. -/
theorem header_meetsAt (s : ReadState) : MeetsAt spot (fun _ => True) header header s :=
  .state fun _ _ => declarations_meetsAt _ _ s

end Grammar

/-! ## Whole headers -/

open Bare (bare)
open Rule (Neatly)

variable {front back : String} {log log' : DiagnosticLog} {origin origin' : Option String}
  {h h' : Header}

theorem byteLength_toList (text : String) : byteLength text.toList = text.utf8ByteSize :=
  (utf8ByteSize_eq text).symm

/-- In front of a source that has a closing delimiter at the place, it is missed. -/
theorem Spot.misses_start {spot : Spot} {source : String} (log : DiagnosticLog) (origin : Option String)
    (hcloser : CloserAt spot.place (significant (tokenize source))) :
    spot.Misses (.start source (tokenize source) log origin) := by
  have hkind : spot.AvoidsKind .header := .of_nil rfl rfl
  exact ⟨sound_start source log origin, hcloser, rfl, List.forall_mem_singleton.mpr (.begin hkind _)⟩

/-- A comma in front of the closing delimiter moves on what stands behind it. -/
theorem exists_start_parted
    (hcloser : CloserAt front.utf8ByteSize (significant (tokenize (front ++ back)))) :
    ∃ before w w', significant (tokenize (front ++ back)) = before ++ w ∧
      Parted front.utf8ByteSize w w' ∧
      significant (tokenize (front ++ "," ++ back)) = before ++ w' := by
  have hwhole : String.ofList (front.toList ++ back.toList) = front ++ back := by
    rw [← String.toList_append, String.ofList_toList]
  have hcomma : String.ofList (front.toList ++ ',' :: back.toList) = front ++ "," ++ back := by
    rw [← String.ofList_toList (s := front ++ "," ++ back), String.toList_append,
      String.toList_append, List.append_assoc]
    rfl
  have hparted := @exists_parted front.toList back.toList
  rw [hwhole, hcomma, byteLength_toList] at hparted
  exact hparted hcloser

/-- Where something in the tree of a header without errors is at the place, the header with a comma there
    has one error, and its tree is the same, up to the comma. -/
theorem Header.extends_of_read (spot : Spot) (hplace : spot.place = front.utf8ByteSize)
    (hread : Header.read (front ++ back) log origin = .ok h) (hclean : h.errors = [])
    (hcloser : CloserAt front.utf8ByteSize (significant (tokenize (front ++ back))))
    (hread' : Header.read (front ++ "," ++ back) log' origin' = .ok h')
    (hfound : ¬ spot.Clear h.root) :
    h'.errors.map SyntaxError.cause = [.itemAfterComma] ∧ spot.Extends [h.root] [h'.root] := by
  obtain ⟨s, hdone, -⟩ := exists_header_done (front ++ back) log origin
  obtain ⟨s', hdone', -⟩ := exists_header_done (front ++ "," ++ back) log' origin'
  obtain ⟨root, _, hopened, -, hroot, -⟩ := exists_read_of_header hdone
  obtain ⟨root', _, hopened', -, hroot', -⟩ := exists_read_of_header hdone'
  obtain rfl := Except.ok.inj (hroot.symm.trans hread)
  obtain rfl := Except.ok.inj (hroot'.symm.trans hread')
  rw [← hplace] at hcloser
  have hneat : Neatly Grammar.header (.start (front ++ back) (tokenize (front ++ back)) log origin)
      () s := ⟨hdone, congrArg List.length hclean⟩
  rcases (Grammar.header_meetsAt _).meets (Spot.misses_start log origin hcloser) hneat with
    ⟨hmisses, -⟩ | ⟨p, w, hrow, -, hstarts, hrun⟩
  · have hpasses := hmisses.opened root (by rw [hopened]; exact List.mem_singleton_self root)
    exact absurd (hpasses.clear _) hfound
  · rw [hplace] at hcloser
    obtain ⟨before, w₁, w', hrow₁, hparted, hrow'⟩ := exists_start_parted hcloser
    rw [← hplace] at hparted
    have hinOrder : InOrder 0 (front ++ back).utf8ByteSize (before ++ w₁) := by
      rw [← hrow₁]
      exact within_start (front ++ back) log origin
    obtain ⟨rfl, rfl⟩ := hparted.startsAt.unique hstarts (hrow₁.symm.trans hrow) hinOrder
    have hstart : ReadState.start (front ++ "," ++ back) (tokenize (front ++ "," ++ back)) log' origin' =
        (ReadState.start (front ++ back) (tokenize (front ++ back)) log origin).onto (before ++ w')
          (.start (front ++ "," ++ back) (tokenize (front ++ "," ++ back)) log' origin') := by
      unfold ReadState.start ReadState.onto
      rw [hrow']
    have hends := hrun w' (.start (front ++ "," ++ back) (tokenize (front ++ "," ++ back)) log' origin')
      hparted
    rw [← hstart] at hends
    obtain ⟨-, -, ⟨n, n', outer, hn, hn', hkind, hchildren⟩, herrors⟩ := hends.of_done hdone'
    obtain ⟨rfl, rfl⟩ := List.cons.inj (hopened.symm.trans hn)
    obtain ⟨rfl, -⟩ := List.cons.inj (hopened'.symm.trans hn')
    refine ⟨?_, .below hkind hchildren⟩
    rw [herrors, show s.errors.toList = [] from hclean]
    rfl

/-- In a header that is read without an error a comma in front of the closing delimiter of a list that
    is not empty costs one error. The tree gains a leaf for the comma if the list is one whose delimiters
    it shows, and the list of a type leaves the tree as it is. -/
theorem read_trailing_comma (front back : String) (hread : Header.read (front ++ back) log origin = .ok h)
    (hclean : h.errors = [])
    (hcloser : CloserAt front.utf8ByteSize (significant (tokenize (front ++ back))))
    (log' : DiagnosticLog) (origin' : Option String) :
    ∃ h', Header.read (front ++ "," ++ back) log' origin' = .ok h' ∧
      ((∃ n ∈ h.root.sequence, n.ClosesAt front.utf8ByteSize) →
        h'.errors.map SyntaxError.message = ["Expected item after comma"] ∧
          Node.GainsComma front.utf8ByteSize [h.root] [h'.root]) ∧
      ((∃ t ∈ h.typeNames, t.Spans front.utf8ByteSize) →
        h'.errors.map SyntaxError.message = ["Expected item after comma"] ∧
          bare h'.root = bare h.root) := by
  obtain ⟨h', hread'⟩ := exists_read_header (front ++ "," ++ back) log' origin'
  have hmessages : h'.errors.map SyntaxError.cause = [.itemAfterComma] →
      h'.errors.map SyntaxError.message = ["Expected item after comma"] := by
    intro hcauses
    have hmap := congrArg (List.map SyntaxError.Cause.message) hcauses
    rwa [List.map_map] at hmap
  have hextends := fun shown hfound => Header.extends_of_read ⟨front.utf8ByteSize, shown⟩ rfl
    hread hclean hcloser hread' hfound
  refine ⟨h', hread', fun ⟨n, hn, hcloses⟩ => ?_, fun ⟨t, ht, hspans⟩ => ?_⟩
  · obtain ⟨hcauses, hgains⟩ := hextends true fun hclear => (hclear n hn).closer rfl hcloses
    exact ⟨hmessages hcauses, hgains.shown rfl⟩
  · obtain ⟨n, hn, htype⟩ := List.mem_flatMap.mp ht
    obtain ⟨hcauses, hsame⟩ := hextends false fun hclear => (hclear n hn).types t htype rfl hspans
    exact ⟨hmessages hcauses, (List.cons.inj (hsame.hidden rfl)).1.symm⟩

/-- A comma in a list of protocols is in the tree, and one between the halves of a double bracket is
    not. -/
theorem read_trailing_comma_conformance_and_half : ∃ h,
    Header.read "@protocol P<Q>\n@property Map<A,Set<B>>*m;\n@end" = .ok h ∧ h.errors = [] ∧
      (∃ n ∈ h.root.sequence, n.ClosesAt 13) ∧ (∃ t ∈ h.typeNames, t.Spans 37) ∧
      (∃ h', Header.read "@protocol P<Q,>\n@property Map<A,Set<B>>*m;\n@end" = .ok h' ∧
        h'.errors.map SyntaxError.message = ["Expected item after comma"] ∧
        Node.GainsComma 13 [h.root] [h'.root]) ∧
      ∃ h', Header.read "@protocol P<Q>\n@property Map<A,Set<B>,>*m;\n@end" = .ok h' ∧
        h'.errors.map SyntaxError.message = ["Expected item after comma"] ∧
        bare h'.root = bare h.root := by
  let row : List Token := [⟨.atProtocol, "@protocol", ⟨0, 9, by decide⟩⟩,
    ⟨.identifier, "P", ⟨10, 11, by decide⟩⟩, ⟨.less, "<", ⟨11, 12, by decide⟩⟩,
    ⟨.identifier, "Q", ⟨12, 13, by decide⟩⟩, ⟨.greater, ">", ⟨13, 14, by decide⟩⟩,
    ⟨.atProperty, "@property", ⟨15, 24, by decide⟩⟩, ⟨.identifier, "Map", ⟨25, 28, by decide⟩⟩,
    ⟨.less, "<", ⟨28, 29, by decide⟩⟩, ⟨.identifier, "A", ⟨29, 30, by decide⟩⟩,
    ⟨.comma, ",", ⟨30, 31, by decide⟩⟩, ⟨.identifier, "Set", ⟨31, 34, by decide⟩⟩,
    ⟨.less, "<", ⟨34, 35, by decide⟩⟩, ⟨.identifier, "B", ⟨35, 36, by decide⟩⟩,
    ⟨.shiftRight, ">>", ⟨36, 38, by decide⟩⟩, ⟨.star, "*", ⟨38, 39, by decide⟩⟩,
    ⟨.identifier, "m", ⟨39, 40, by decide⟩⟩, ⟨.semicolon, ";", ⟨40, 41, by decide⟩⟩,
    ⟨.atEnd, "@end", ⟨42, 46, by decide⟩⟩]
  have hrow : significant (tokenize "@protocol P<Q>\n@property Map<A,Set<B>>*m;\n@end") = row := by cbv
  obtain ⟨h, hread, hclean, htest⟩ := exists_read_of_root hrow
    (fun n => n.sequence.tail.any (fun m => decide (m.ClosesAt 13)) &&
      n.sequence.any fun m => m.kind.typeNames.any fun t => decide (t.Spans 37))
    (fun n range => by rw [Node.sequence_eq, Node.sequence_eq]; rfl) (by decide +kernel)
  obtain ⟨hcloses, hspans⟩ := Bool.and_eq_true_iff.mp htest
  have hcloses : ∃ n ∈ h.root.sequence, n.ClosesAt 13 := by
    obtain ⟨n, hn, hcloses⟩ := List.any_eq_true.mp hcloses
    exact ⟨n, List.mem_of_mem_tail hn, of_decide_eq_true hcloses⟩
  have hspans : ∃ t ∈ h.typeNames, t.Spans 37 := by
    obtain ⟨n, hn, hspans⟩ := List.any_eq_true.mp hspans
    obtain ⟨t, ht, hspans⟩ := List.any_eq_true.mp hspans
    exact ⟨t, List.mem_flatMap.mpr ⟨n, hn, ht⟩, of_decide_eq_true hspans⟩
  refine ⟨h, hread, hclean, hcloses, hspans, ?_, ?_⟩
  · obtain ⟨h', hread', hshown, -⟩ := read_trailing_comma "@protocol P<Q"
      ">\n@property Map<A,Set<B>>*m;\n@end" hread hclean
      ⟨row.take 4, _, row.drop 5, hrow, .inl ⟨rfl, by decide, by decide⟩⟩ .empty none
    exact ⟨h', hread', hshown hcloses⟩
  · obtain ⟨h', hread', -, hhidden⟩ := read_trailing_comma
      "@protocol P<Q>\n@property Map<A,Set<B>" ">*m;\n@end" hread hclean
      ⟨row.take 13, _, row.drop 14, hrow, .inr ⟨rfl, rfl⟩⟩ .empty none
    exact ⟨h', hread', hhidden hspans⟩

end HeaderBridge
