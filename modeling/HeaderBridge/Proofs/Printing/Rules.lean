/-
  The rules of a header keep a state tidy, and what the rules of types come to is readable. Only two
  rules store types, those of properties and of methods; every other rule stores names or nothing.
-/
import HeaderBridge.Proofs.Printing.Stored
import HeaderBridge.Proofs.Recovery.Insertion
import HeaderBridge.Proofs.Totality.Header
import HeaderBridge.Proofs.Types.Speculation

namespace HeaderBridge

namespace Grammar

open Rule

variable {s : ReadState}

/-! ## Types -/

/-- Behind the qualifiers no further one stands. -/
theorem qualifiers_tidyAt (s : ReadState) :
    TidyAt (fun _ s' => startsWithQualifier s'.rest = false) qualifiers s := by
  intro hs
  refine ends_bind.mpr (ends_state.mpr (ends_bind.mpr (ends_modify.mpr ?_)))
  obtain ⟨front, rest, -, hread, -, hstop⟩ := ReadState.Reads.readWhile_spec startsWithQualifier s
  refine ends_bind.mpr (ends_state.mpr ⟨hs.of_reads (.readWhile _ s), ?_⟩)
  rw [hread]
  rcases hstop with rfl | hstop
  · rfl
  · exact hstop

theorem isQualifier_of_startsWithQualifier (hc : s.current = .identifier)
    (hfree : startsWithQualifier s.rest = false) : isQualifier s.currentText = false := by
  obtain ⟨t, rest, hr, hkind⟩ := ReadState.exists_cons_of_current hc (by decide)
  rw [hr, startsWithQualifier_cons, hkind, beq_self_eq_true, Bool.true_and] at hfree
  rwa [ReadState.currentText_of_cons hr]

/-- In front of no qualifier a name is read that starts with none. -/
theorem baseName_tidyAt (hfree : startsWithQualifier s.rest = false) :
    TidyAt (fun name _ => IsBaseName name) baseName s := by
  intro hs
  refine ends_bind.mpr (ends_identifier.mpr ⟨fun hc => ?_, fun _ => hs⟩)
  refine ends_bind.mpr (ends_state.mpr (ends_bind.mpr (ends_modify.mpr ⟨?_, ?_⟩)))
  · exact hs.advance.of_reads (.foldl_advance _ _)
  · exact ⟨s.currentText, _, hs.currentText hc, isQualifier_of_startsWithQualifier hc hfree,
      follows_nameWords _ _, rfl⟩

theorem stars_tidyAt (fuel : Nat) : ∀ type found (s : ReadState), type.Readable →
    TidyAt (fun read _ => read.1.Readable) (stars fuel type found) s := by
  induction fuel with
  | zero => exact fun _ _ _ _ => .breakWith _
  | succ fuel ih =>
    intro type found s htype
    refine (TidyAt.eat .star).bind fun star s₁ _ => .ite (fun _ => ?_) fun _ => .pure htype
    exact (qualifiers_tidyAt s₁).bind fun _ s₂ _ => ih _ _ s₂ (.pointer htype)

/-- A type that no qualifier stands in front of is readable. -/
theorem objcType_tidyAt (fuel : Nat) : ∀ s : ReadState, startsWithQualifier s.rest = false →
    TidyAt (fun read _ => read.1.Readable) (objcType fuel) s := by
  induction fuel with
  | zero => exact fun _ _ => .breakWith _
  | succ fuel ih =>
    intro s hfree
    refine (baseName_tidyAt hfree).bind fun name s₁ hname => .state ?_
    have last : ∀ (type : ObjcType) s', type.Readable →
        TidyAt (fun read _ => read.1.Readable) (do
          let type ← pure type
          stars ((← Rule.state).weight + 1) type none) s' := fun type s' htype =>
      .state (stars_tidyAt _ type none s' htype)
    refine .ite (fun _ => .ite (fun _ => ?_) fun hother => ?_) fun _ => ?_
    · have hitem : ∀ s', TidyAt (fun name _ => IsWord name.toList)
          (Ident.name <$> identifier .conformance) s' := fun s' => (TidyAt.identifier .conformance).map
      exact (TidyAt.list hitem).bind fun protocols s₂ hwords => last _ s₂ (.id hwords)
    · have hitem : ∀ s', TidyAt (fun type _ => ObjcType.Readable type) (do
          let _ ← qualifiers
          return (← objcType fuel).1) s' := fun s' =>
        (qualifiers_tidyAt s').bind fun _ s₂ hfree₂ => (ih s₂ hfree₂).bind fun _ _ h => .pure h
      exact (TidyAt.list hitem).bind fun arguments s₂ heach => last _ s₂ (.generic hname hother heach)
    · refine last _ s₁ ?_
      split
      · exact .id nofun
      · next hother => exact .named hname hother

theorem failingAs_tidyAt {α : Type} {Q : α → ReadState → Prop} {cause : SyntaxError.Cause}
    {r : Rule α} (h : TidyAt Q r s) : TidyAt Q (failingAs cause r) s := by
  intro hs
  have hr := h hs
  unfold Ends at hr ⊢
  unfold failingAs
  cases he : r s with
  | done a s' => rw [he] at hr; exact hr
  | failed e s' => rw [he] at hr; exact hr
  | broken fault => trivial

theorem typeName_tidyAt (s : ReadState) : TidyAt (fun t _ => t.type.Readable) typeName s := by
  refine .state ((qualifiers_tidyAt s).bind fun inFront s₁ hfree => .state ?_)
  refine (failingAs_tidyAt (objcType_tidyAt _ s₁ hfree)).bind fun found s₂ hfound => .state ?_
  obtain ⟨type, behind⟩ := found
  simp only []
  split
  · exact .pure hfound
  · exact .breakWith _

/-! ## Properties -/

theorem propertyModifier_tidyAt (s : ReadState) : KeepsTidy propertyModifier s := by
  have last : ∀ (name : Ident) (value : Option String) s', KeepsTidy (do
      let value ← pure value
      leafFrom (.modifier ⟨name.name, value⟩) name.span.start) s' := fun name value s' =>
    .leafFrom (.of_nil rfl) _
  refine (TidyAt.identifier _).bind fun name s₁ _ => (TidyAt.eat .eq).bind fun eq s₂ _ => ?_
  refine .ite (fun _ => ?_) fun _ => last name none s₂
  exact (TidyAt.identifier _).bind fun accessor s₃ _ => (TidyAt.eat .colon).bind fun colon s₄ _ =>
    last name _ s₄

theorem modifierList_tidyAt (s : ReadState) : KeepsTidy modifierList s :=
  .withNode (.of_nil rfl) fun _ =>
    (TidyAt.list propertyModifier_tidyAt).bind fun _ _ _ => .pure trivial

theorem propertyName_tidyAt (type : Slot TypeName) (s : ReadState) :
    KeepsTidy (propertyName type) s := by
  refine .state (.ite (fun _ => ?_) fun _ => ?_)
  · exact (TidyAt.modify fun hs => hs.skipUntil _).bind fun _ _ _ => .pure trivial
  · exact (TidyAt.recover (.identifier .propertyName) _).mono fun _ _ _ => trivial

theorem readable_property {data : PropertyData} (h : ∀ t ∈ data.type.value?, t.type.Readable) :
    (NodeKind.property data).Readable :=
  fun t ht => h t (Option.mem_toList.mp ht)

theorem property_tidyAt (s : ReadState) : KeepsTidy property s := by
  refine .state (.withNode (.of_nil rfl) fun s₀ => TidyAt.keywordHere.bind fun _ s₁ _ => .state ?_)
  have last : ∀ s₂, KeepsTidy (do
      let type ← recover typeName fun kind =>
        kind == .identifier || kind == .semicolon || isMemberSync kind
      let name ← propertyName type
      setKind (.property ⟨type, name, s.inOptional⟩)
      if (type.isInvalid || name.isInvalid) && (← Rule.state).current != .semicolon then return
      punctuation .semicolon .propertyEnd) s₂ := fun s₂ =>
    (TidyAt.recover (typeName_tidyAt s₂) _).bind fun type s₃ htype =>
      (propertyName_tidyAt type s₃).bind fun name s₄ _ =>
      (TidyAt.setKind (readable_property htype)).bind fun _ s₅ _ =>
      .state (.ite (fun _ => .pure trivial) fun _ => .punctuation _ _)
  exact .ite (fun _ => (modifierList_tidyAt s₁).bind fun _ s₂ _ => last s₂) fun _ => last s₁

/-! ## Methods -/

theorem parenthesizedType_tidyAt (s : ReadState) :
    TidyAt (fun t _ => t.type.Readable) parenthesizedType s :=
  TidyAt.advance.bind fun _ s₁ _ => (typeName_tidyAt s₁).bind fun _ _ htype =>
    (TidyAt.expect _ _).bind fun _ _ _ => .pure htype

theorem optionalType_tidyAt (s : ReadState) :
    TidyAt (fun type _ => ∀ t ∈ type, t.type.Readable) optionalType s := by
  refine .state (.ite (fun _ => .map ?_) fun _ => .pure nofun)
  refine (parenthesizedType_tidyAt s).mono fun type _ htype => ?_
  rintro _ ⟨⟩
  exact htype

theorem keywordParts_tidyAt (fuel : Nat) : ∀ keyword (read : Array KeywordPart) (s : ReadState),
    (∀ p ∈ read, ∀ t ∈ p.type, t.type.Readable) →
    TidyAt (fun parts _ => ∀ p ∈ parts, ∀ t ∈ p.type, t.type.Readable)
      (keywordParts fuel keyword read) s := by
  induction fuel with
  | zero => exact fun _ _ _ _ => .breakWith _
  | succ fuel ih =>
    intro keyword read s hread
    refine TidyAt.advance.bind fun _ s₁ _ => (optionalType_tidyAt s₁).bind fun type s₂ htype => ?_
    refine (TidyAt.identifier _).bind fun name s₃ _ => .state ?_
    have hmore : ∀ p ∈ read.push ⟨keyword, type, name⟩, ∀ t ∈ p.type, t.type.Readable := by
      intro p hp
      rcases Array.mem_push.mp hp with hp | rfl
      · exact hread p hp
      · exact htype
    refine .ite (fun _ => ?_) fun _ => .ite (fun _ => ih _ _ s₃ hmore) fun _ => .pure hmore
    exact (TidyAt.identifier _).bind fun next s₄ _ => ih _ _ s₄ hmore

theorem variadicMark_tidyAt (s : ReadState) : KeepsTidy variadicMark s :=
  (TidyAt.eat _).bind fun _ s₁ _ =>
    .ite (fun _ => .modify fun hs => hs.of_reads (.readWhile _ s₁)) fun _ => .pure trivial

theorem selectorFrom_tidyAt (first : Option Ident) (s : ReadState) :
    TidyAt (fun found _ => ∀ t ∈ found.types, t.type.Readable) (selectorFrom first) s := by
  refine .state (.ite (fun _ => ?_) fun _ => ?_)
  · refine (keywordParts_tidyAt _ first #[] s nofun).bind fun parts s₁ hparts => ?_
    refine (variadicMark_tidyAt s₁).bind fun _ s₂ _ => .pure fun t ht => ?_
    obtain ⟨p, hp, htype⟩ := List.mem_filterMap.mp ht
    exact hparts p (Array.mem_toList_iff.mp hp) t htype
  · cases first with
    | some name => exact .pure nofun
    | none => exact .failHere _

theorem selector_tidyAt (s : ReadState) :
    TidyAt (fun found _ => ∀ t ∈ found.types, t.type.Readable) selector s := by
  have hfirst : KeepsTidy (some <$> identifier .selector) s :=
    .map ((TidyAt.identifier _).mono fun _ _ _ => trivial)
  refine .state (.ite (fun _ => ?_) fun _ => ?_)
  · exact hfirst.bind fun first s₁ _ => selectorFrom_tidyAt first s₁
  · exact .bind (P := fun _ _ => True) (.pure trivial) fun first s₁ _ => selectorFrom_tidyAt first s₁

theorem readable_method {data : MethodData} {found : Selector} (hvalid : data.selector = .valid found)
    (hreturns : ∀ t ∈ data.returns, t.type.Readable) (hfound : ∀ t ∈ found.types, t.type.Readable) :
    (NodeKind.method data).Readable := by
  intro t ht
  rcases List.mem_append.mp ht with ht | ht
  · exact hreturns t (Option.mem_toList.mp ht)
  · rw [hvalid] at ht
    obtain ⟨_, hmem, htypes⟩ := List.mem_flatMap.mp ht
    obtain rfl := List.mem_singleton.mp hmem
    exact hfound t htypes

theorem method_tidyAt (s : ReadState) : KeepsTidy method s := by
  refine .state (.withNode (.of_nil rfl) fun s₀ => TidyAt.punctuationHere.bind fun _ s₁ _ => ?_)
  refine (optionalType_tidyAt s₁).bind fun returns s₂ hreturns => ?_
  refine (selector_tidyAt s₂).bind fun found s₃ hfound => ?_
  refine (TidyAt.setKind (readable_method rfl hreturns hfound)).bind fun _ s₄ _ => ?_
  have hattributes : KeepsTidy (modify fun s => readAttributes s.weight s) s₄ :=
    .modify fun hs => hs.of_reads (reads_readAttributes _ s₄)
  exact hattributes.bind fun _ _ _ => .punctuation _ _

/-! ## Bodies -/

theorem recoverMember_tidyAt {r : Rule Unit} (h : KeepsTidy r s) :
    KeepsTidy (recoverMember r) s := by
  intro hs
  have hr := h hs
  unfold Ends at hr ⊢
  unfold recoverMember
  cases he : r s with
  | done a s' => rw [he] at hr; exact hr
  | failed e s' => rw [he] at hr; exact ⟨(hr.report e).skipUntil _, trivial⟩
  | broken fault => trivial

theorem unknownMember_tidyAt (cause : SyntaxError.Cause) (s : ReadState) :
    KeepsTidy (unknownMember cause) s := by
  refine .state ((TidyAt.report _).bind fun _ s₁ _ => TidyAt.advance.bind fun span s₂ _ => ?_)
  refine (TidyAt.modify fun hs => hs.of_reads (.readWhile _ s₂)).bind fun _ s₃ _ => ?_
  exact (TidyAt.eat _).bind fun _ _ _ => .leafFrom (.of_nil rfl) _

theorem enter_tidyAt (inOptional : ReadState → Bool) (s : ReadState) :
    KeepsTidy (modify fun s => { s with inOptional := inOptional s }) s :=
  .modify fun hs => ⟨hs.words, hs.nodes⟩

theorem memberList_tidyAt (cause : SyntaxError.Cause) (inProtocol : Bool) (fuel : Nat) :
    ∀ s : ReadState, KeepsTidy (memberList cause inProtocol fuel) s := by
  induction fuel with
  | zero => exact fun _ => .breakWith _
  | succ fuel ih =>
    intro s
    have round : ∀ {r : Rule Unit}, KeepsTidy r s → KeepsTidy (do
        let _ ← r
        memberList cause inProtocol fuel) s := fun h => h.bind fun _ s₁ _ => ih s₁
    have enter : ∀ inOptional : Bool, KeepsTidy (do
        modify fun s => { s with inOptional }
        let _ ← keywordHere
        memberList cause inProtocol fuel) s := fun inOptional =>
      (enter_tidyAt (fun _ => inOptional) s).bind fun _ s₁ _ =>
        TidyAt.keywordHere.bind fun _ s₂ _ => ih s₂
    unfold memberList
    refine .state ?_
    simp only []
    refine .ite (fun _ => .pure trivial) fun _ => ?_
    split
    · exact round (recoverMember_tidyAt (property_tidyAt s))
    · exact round (recoverMember_tidyAt (method_tidyAt s))
    · exact round (recoverMember_tidyAt (method_tidyAt s))
    · exact .ite (fun _ => enter _) fun _ => round (unknownMember_tidyAt cause s)
    · exact .ite (fun _ => enter _) fun _ => round (unknownMember_tidyAt cause s)
    · exact round (unknownMember_tidyAt cause s)

theorem body_tidyAt (cause : SyntaxError.Cause) (inProtocol : Bool) (s : ReadState) :
    KeepsTidy (body cause inProtocol) s :=
  .state ((memberList_tidyAt cause inProtocol _ s).bind fun _ s₁ _ => enter_tidyAt (fun _ => false) s₁)

/-! ## Declarations -/

theorem protocolList_tidyAt (s : ReadState) : KeepsTidy protocolList s :=
  .withNode (.of_nil rfl) fun _ => (TidyAt.list fun _ => .identifier _).bind fun _ _ _ =>
    .setKind (.of_nil rfl)

theorem skipThenEat_tidy {e : SyntaxError} (hs : s.Tidy) (stop : TokenKind → Bool)
    (kind : TokenKind) : Ends True (do let _ ← eat kind) ((s.report e).skipUntil stop)
      (fun _ s' => s'.Tidy ∧ True) fun _ s' => s'.Tidy :=
  ((TidyAt.eat kind).bind fun _ _ _ => .pure trivial) ((hs.report e).skipUntil stop)

theorem optionalProtocolList_tidyAt (s : ReadState) : KeepsTidy optionalProtocolList s := by
  intro hs
  unfold Ends optionalProtocolList
  by_cases hc : s.current = .less
  · have hr := protocolList_tidyAt s hs
    unfold Ends at hr
    rw [if_pos hc]
    cases he : protocolList s with
    | done a s' => rw [he] at hr; exact hr
    | failed e s' => rw [he] at hr; exact skipThenEat_tidy hr _ .greater
    | broken fault => trivial
  · rw [if_neg hc]
    exact ⟨hs, trivial⟩

theorem optionalSuperclass_tidyAt (s : ReadState) : KeepsTidy optionalSuperclass s := by
  refine .state (.ite (fun _ => ?_) fun _ => .pure trivial)
  exact TidyAt.punctuationHere.bind fun _ _ _ => (TidyAt.identifier _).bind fun _ _ _ =>
    .leaf (.of_nil rfl) _

theorem variableBlock_tidyAt (s : ReadState) : KeepsTidy variableBlock s := by
  refine .modify fun hs => ?_
  split
  · exact hs.of_reads (.skipGroup _ _ s)
  · exact hs

theorem classInterface_tidyAt (s : ReadState) : KeepsTidy classInterface s := by
  refine .withNode (.of_nil rfl) fun _ => TidyAt.keywordHere.bind fun _ _ _ => ?_
  refine (TidyAt.identifier _).bind fun name _ _ => (TidyAt.setKind (.of_nil rfl)).bind fun _ s₁ _ => ?_
  refine (optionalSuperclass_tidyAt s₁).bind fun _ s₂ _ => ?_
  refine (optionalProtocolList_tidyAt s₂).bind fun _ s₃ _ => ?_
  refine (variableBlock_tidyAt s₃).bind fun _ s₄ _ => (body_tidyAt _ _ s₄).bind fun _ _ _ => ?_
  exact .keyword _ _

theorem protocolDeclaration_tidyAt (s : ReadState) : KeepsTidy protocolDeclaration s := by
  refine .withNode (.of_nil rfl) fun _ => TidyAt.keywordHere.bind fun _ _ _ => ?_
  refine (TidyAt.identifier _).bind fun name _ _ => (TidyAt.setKind (.of_nil rfl)).bind fun _ s₁ _ => ?_
  refine (optionalProtocolList_tidyAt s₁).bind fun _ s₂ _ => (body_tidyAt _ _ s₂).bind fun _ _ _ => ?_
  exact .keyword _ _

theorem recoverDeclaration_tidyAt {r : Rule Unit} (h : KeepsTidy r s) :
    KeepsTidy (recoverDeclaration r) s := by
  intro hs
  have hr := h hs
  unfold Ends at hr ⊢
  unfold recoverDeclaration
  cases he : r s with
  | done a s' => rw [he] at hr; exact hr
  | failed e s' => rw [he] at hr; exact skipThenEat_tidy hr endsBody .atEnd
  | broken fault => trivial

theorem skipUntilThenEat_tidyAt (stop : TokenKind → Bool) (kind : TokenKind) (s : ReadState) :
    KeepsTidy (do
      modify (·.skipUntil stop)
      let _ ← eat kind) s :=
  (TidyAt.modify fun hs => hs.skipUntil stop).bind fun _ _ _ =>
    (TidyAt.eat kind).bind fun _ _ _ => .pure trivial

theorem declarations_tidyAt (fuel : Nat) : ∀ s : ReadState, KeepsTidy (declarations fuel) s := by
  induction fuel with
  | zero => exact fun _ => .breakWith _
  | succ fuel ih =>
    intro s
    have round : ∀ {α : Type} {r : Rule α}, KeepsTidy r s → KeepsTidy (do
        let _ ← r
        declarations fuel) s := fun h => h.bind fun _ s₁ _ => ih s₁
    unfold declarations
    refine .state ?_
    simp only []
    split
    · exact .pure trivial
    · exact round (recoverDeclaration_tidyAt (classInterface_tidyAt s))
    · refine .ite (fun _ => round (skipUntilThenEat_tidyAt _ _ s)) fun _ => ?_
      exact round (recoverDeclaration_tidyAt (protocolDeclaration_tidyAt s))
    · exact round (skipUntilThenEat_tidyAt _ _ s)
    · exact round (skipUntilThenEat_tidyAt _ _ s)
    · exact round .advance

/-- Reading a header keeps the state tidy. -/
theorem header_tidyAt (s : ReadState) : KeepsTidy header s :=
  .state (declarations_tidyAt _ s)

end Grammar

/-! ## Whole headers -/

/-- In front of a source every identifier is a word, and no type is stored yet. -/
theorem ReadState.tidy_start (source : String) (log : DiagnosticLog) (origin : Option String) :
    (ReadState.start source (tokenize source) log origin).Tidy := by
  refine ⟨fun t ht hkind => ?_, List.forall_mem_singleton.mpr (Node.readable_leaf (.of_nil rfl) _ _)⟩
  rcases spelt_of_mem (List.mem_filter.mp ht).1 with hend | hspelt
  · rw [hkind] at hend
    cases hend
  · rw [hkind] at hspelt
    exact hspelt

/-- Every type in the tree of a header is readable. -/
theorem Header.readable_of_read {source : String} {log : DiagnosticLog} {origin : Option String}
    {h : Header} (hread : Header.read source log origin = .ok h) :
    ∀ t ∈ h.typeNames, t.type.Readable := by
  intro t ht
  rcases (Grammar.header_succeedsAt (sound_start source log origin)).cases with
    ⟨_, s, hdone, _⟩ | ⟨_, _, _, hfalse⟩
  · obtain ⟨root, row, hopened, -, hroot, -⟩ := exists_read_of_header hdone
    obtain ⟨htidy, -⟩ :=
      (Grammar.header_tidyAt _ (ReadState.tidy_start source log origin)).of_done hdone
    have hnodes := htidy.nodes
    rw [hopened, List.forall_mem_singleton] at hnodes
    have hwhole : h.root.Readable := by
      rw [Except.ok.inj (hread.symm.trans hroot)]
      exact hnodes.of_eq rfl rfl
    obtain ⟨n, hn, htype⟩ := List.mem_flatMap.mp ht
    exact hwhole n hn t htype
  · exact hfalse.elim

/-- The root of a header is the node that is left open, with a range. -/
theorem exists_read_of_root {source : String} {row : List Token}
    (hrow : significant (tokenize source) = row) (test : Node → Bool)
    (hrange : ∀ n range, test { n with range } = test n)
    (h : Grammar.isDoneWith (fun s => s.errors.toList.isEmpty && s.nodes.opened.all test)
      (Grammar.header { Grammar.before row with sourceLength := source.utf8ByteSize }) = true) :
    ∃ h, Header.read source = .ok h ∧ h.errors = [] ∧ test h.root = true := by
  obtain ⟨h, s, root, hread, htest, hopened, hroot, herrors, _⟩ :=
    Grammar.exists_read_of_isDoneWith hrow h
  obtain ⟨hnone, hall⟩ := Bool.and_eq_true_iff.mp htest
  refine ⟨h, hread, herrors.trans (List.isEmpty_iff.mp hnone), ?_⟩
  rw [hopened, List.all_cons, List.all_nil, Bool.and_true] at hall
  exact (congrArg test hroot).trans ((hrange root _).trans hall)

/-- The types of a header are those in the root that is left open. -/
theorem exists_read_of_typeNames {source : String} {row : List Token}
    (hrow : significant (tokenize source) = row) (test : List TypeName → Bool)
    (h : Grammar.isDoneWith (fun s => s.errors.toList.isEmpty &&
        s.nodes.opened.all fun n => test (n.sequence.flatMap (·.kind.typeNames)))
      (Grammar.header { Grammar.before row with sourceLength := source.utf8ByteSize }) = true) :
    ∃ h, Header.read source = .ok h ∧ h.errors = [] ∧ test h.typeNames = true :=
  exists_read_of_root hrow _ (fun n range => by rw [Node.sequence_eq, Node.sequence_eq]; rfl) h

end HeaderBridge
