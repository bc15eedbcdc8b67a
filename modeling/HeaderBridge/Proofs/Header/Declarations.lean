/-
  The rules for bodies and declarations build what their spellings say. A body may leave a section
  open, which its own end closes, so the section is followed apart from the rest of the state while
  a body is read.
-/
import HeaderBridge.Proofs.Header.Methods
import HeaderBridge.Proofs.Header.Showing

namespace HeaderBridge.Grammar

open Rule
open ReadState (kindOf)

variable {s : ReadState} {us : List Token}

/-! ## Where bodies start -/

theorem MemberSpelling.starts {isOptional : Bool} {ts : List Token} {m : Member}
    (h : MemberSpelling isOptional ts m) (us : List Token) :
    kindOf (ts ++ us) = .atProperty ∨ kindOf (ts ++ us) = .plus ∨ kindOf (ts ++ us) = .minus := by
  cases h with
  | property hspelt =>
    cases hspelt with
    | property _ hdirective => exact Or.inl hdirective
  | method hspelt =>
    cases hspelt with
    | method _ hsign => exact Or.inr hsign

/-- A body, or its end, starts with a directive or a sign. -/
theorem BodySpelling.starts {inProtocol isOptional : Bool} {bs : List Token} {members : List Member}
    (h : BodySpelling inProtocol isOptional bs members) (hus : kindOf us = .atEnd) :
    isMemberSync (kindOf (bs ++ us)) = true := by
  cases h with
  | done =>
    rw [List.nil_append, hus]
    rfl
  | member hfirst _ =>
    rw [List.append_assoc]
    rcases hfirst.starts (_ ++ us) with h | h | h
    · rw [h]
      rfl
    · rw [h]
      rfl
    · rw [h]
      rfl
  | optional _ hmark _ =>
    rw [List.cons_append, ReadState.kindOf_cons, hmark]
    rfl
  | required _ hmark _ =>
    rw [List.cons_append, ReadState.kindOf_cons, hmark]
    rfl

theorem ne_of_isMemberSync {kind kind' : TokenKind} (h : isMemberSync kind = true)
    (h' : isMemberSync kind' = false) : kind ≠ kind' := by
  rintro rfl
  rw [h] at h'
  cases h'

/-! ## Rules that go on after an error -/

theorem builds_recoverMember {r : Rule Unit} {P : Unit → Option NodeKind → List Node → Prop}
    (h : Builds r us P s) : Builds (recoverMember r) us P s := by
  unfold Builds Ends at h
  unfold Builds Ends recoverMember
  cases hr : r s with
  | done a s' => rw [hr] at h; exact h
  | failed e s' => rw [hr] at h; exact h.elim
  | broken f => trivial

theorem builds_recoverDeclaration {r : Rule Unit} {P : Unit → Option NodeKind → List Node → Prop}
    (h : Builds r us P s) : Builds (recoverDeclaration r) us P s := by
  unfold Builds Ends at h
  unfold Builds Ends recoverDeclaration
  cases hr : r s with
  | done a s' => rw [hr] at h; exact h
  | failed e s' => rw [hr] at h; exact h.elim
  | broken f => trivial

/-! ## Bodies -/

/-- Members were added, whatever section the reading ends in. -/
def AddsMembers (r : Rule Unit) (us : List Token) (members : List Member) (s : ReadState) : Prop :=
  Ends True r s (fun _ s' => ∃ cs, Grown s us none cs { s' with inOptional := s.inOptional } ∧
    cs.map Node.member? = members.map some) fun _ _ => False

/-- Behind a member, the other ones are added. -/
theorem AddsMembers.member {r r' : Rule Unit} {us' : List Token} {m : Member}
    {members : List Member} (h : Builds r us (AddsMember m) s)
    (hmore : ∀ s', s'.inOptional = s.inOptional → Halved s'.rest us →
      AddsMembers r' us' members s') :
    AddsMembers (do
      recoverMember r
      r') us' (m :: members) s := by
  refine ends_bind.mpr (Ends.mono (builds_recoverMember h) (fun _ s₁ h₁ => ?_) fun _ _ h => h)
  obtain ⟨kind, cs, hgrown, rfl, hfirst⟩ := h₁
  refine Ends.mono (hmore s₁ hgrown.inOptional hgrown.rest) (fun _ s₂ h₂ => ?_) fun _ _ h => h
  obtain ⟨cs', hgrown', hrest⟩ := h₂
  rw [hgrown.inOptional] at hgrown'
  exact ⟨cs ++ cs', hgrown.trans hgrown', by rw [List.map_append, hfirst, hrest]; rfl⟩

/-- Behind the mark of a section, its members are added. -/
theorem AddsMembers.enter {r' : Rule Unit} {us' : List Token} {inOptional : Bool} {mark : Token}
    {members : List Member} (hmark : mark.kind ≠ .greater) (hs : Halved s.rest (mark :: us))
    (hmore : ∀ s', s'.inOptional = inOptional → Halved s'.rest us →
      AddsMembers r' us' members s') :
    AddsMembers (do
      modify fun s => { s with inOptional }
      keywordHere
      r') us' members s := by
  refine ends_bind.mpr (ends_modify.mpr (ends_bind.mpr ?_))
  refine Ends.mono (quiet_keywordHere hmark hs) (fun _ s₁ h₁ => ?_) fun _ _ h => h
  have hmembers := hmore s₁ h₁.1.inOptional h₁.1.rest
  refine Ends.mono hmembers (fun _ s₂ h₂ => ?_) fun _ _ h => h
  obtain ⟨cs, hgrown, hcs⟩ := h₂
  have hboth := h₁.1.quiet_trans hgrown
  exact ⟨cs, ⟨hboth.rest, hboth.opened, hboth.errors, hboth.log, rfl⟩, hcs⟩

/-- The first member of a body is added by the rule for what its first token says. -/
theorem addsMembers_first {inProtocol isOptional : Bool} {ts : List Token} {m : Member}
    {members : List Member} (h : MemberSpelling isOptional ts m) (cause : SyntaxError.Cause)
    (fuel : Nat) {us' : List Token} (hsection : s.inOptional = isOptional)
    (hs : Halved s.rest (ts ++ us))
    (hmore : ∀ s', s'.inOptional = s.inOptional → Halved s'.rest us →
      AddsMembers (memberList cause inProtocol fuel) us' members s') :
    AddsMembers (memberList cause inProtocol (fuel + 1)) us' (m :: members) s := by
  unfold memberList
  refine ends_bind.mpr (ends_state.mpr ?_)
  cases h with
  | property hspelt =>
    have hc : s.current = .atProperty := by
      cases hspelt with
      | property _ hdirective => exact hs.kindOf_of hdirective (by decide)
    simp only [hc]
    rw [if_neg (by decide)]
    exact AddsMembers.member (builds_property hspelt hsection hs) hmore
  | method hspelt =>
    have hc : s.current = .plus ∨ s.current = .minus := by
      cases hspelt with
      | method _ hsign =>
        exact hsign.imp (fun h => hs.kindOf_of h (by decide)) fun h => hs.kindOf_of h (by decide)
    rcases hc with hc | hc
    all_goals
      simp only [hc]
      rw [if_neg (by decide)]
      exact AddsMembers.member (builds_method hspelt hsection hs) hmore

theorem addsMembers_memberList {inProtocol isOptional : Bool} {bs : List Token}
    {members : List Member} (h : BodySpelling inProtocol isOptional bs members)
    (cause : SyntaxError.Cause) (hus : kindOf us = .atEnd) (fuel : Nat) :
    ∀ s : ReadState, s.inOptional = isOptional → Halved s.rest (bs ++ us) →
      AddsMembers (memberList cause inProtocol fuel) us members s := by
  induction h generalizing fuel with
  | done =>
    intro s _ hs
    cases fuel with
    | zero => exact trivial
    | succ fuel =>
      have hc : s.current = .atEnd := hs.kindOf_of hus (by decide)
      unfold memberList
      refine ends_bind.mpr (ends_state.mpr ?_)
      simp only [hc]
      rw [if_pos (by decide)]
      exact ends_pure.mpr ⟨[], .refl hs, rfl⟩
  | member hfirst _ ih =>
    intro s hsection hs
    cases fuel with
    | zero => exact trivial
    | succ fuel =>
      rw [List.append_assoc] at hs
      exact addsMembers_first hfirst cause fuel hsection hs fun s' hsame hs' =>
        ih fuel s' (hsame.trans hsection) hs'
  | optional hallowed hmark _ ih =>
    intro s _ hs
    cases fuel with
    | zero => exact trivial
    | succ fuel =>
      have hc : s.current = .atOptional := hs.kindOf_of hmark (by decide)
      unfold memberList
      refine ends_bind.mpr (ends_state.mpr ?_)
      simp only [hc]
      rw [if_neg (by decide), if_pos hallowed]
      exact AddsMembers.enter (by rw [hmark]; decide) hs (ih fuel)
  | required hallowed hmark _ ih =>
    intro s _ hs
    cases fuel with
    | zero => exact trivial
    | succ fuel =>
      have hc : s.current = .atRequired := hs.kindOf_of hmark (by decide)
      unfold memberList
      refine ends_bind.mpr (ends_state.mpr ?_)
      simp only [hc]
      rw [if_neg (by decide), if_pos hallowed]
      exact AddsMembers.enter (by rw [hmark]; decide) hs (ih fuel)

/-- A body adds its members, and the section that it ends in does not last. -/
theorem builds_body {inProtocol : Bool} {bs : List Token} {members : List Member}
    (h : BodySpelling inProtocol false bs members) (cause : SyntaxError.Cause)
    (hus : kindOf us = .atEnd) (hsection : s.inOptional = false) (hs : Halved s.rest (bs ++ us)) :
    Builds (body cause inProtocol) us (fun _ k cs => k = none ∧ Shows cs [] [] members) s := by
  unfold body
  refine .state (ends_bind.mpr ?_)
  refine Ends.mono (addsMembers_memberList h cause hus _ s hsection hs) (fun _ s₁ h₁ => ?_)
    fun _ _ h => h
  obtain ⟨cs, hgrown, hcs⟩ := h₁
  rw [hsection] at hgrown
  exact ends_modify.mpr ⟨none, cs, hgrown, rfl, .of_members hcs⟩

/-! ## Declarations -/

theorem ConformanceSpelling.starts {ps : List Token} {protocols : List String}
    (h : ConformanceSpelling ps protocols) (hus : isMemberSync (kindOf us) = true) :
    kindOf (ps ++ us) = .less ∨ isMemberSync (kindOf (ps ++ us)) = true := by
  cases h with
  | none => exact Or.inr hus
  | list hless _ _ _ => exact Or.inl hless

/-- Behind the name of a declaration, and of its superclass, stands the list of its protocols or its
    body. -/
theorem ConformanceSpelling.kindOf_ne {inProtocol : Bool} {ps bs : List Token} {last : Token}
    {protocols : List String} {members : List Member} {kind : TokenKind}
    (h : ConformanceSpelling ps protocols) (hbody : BodySpelling inProtocol false bs members)
    (hlast : last.kind = .atEnd) (hless : kind ≠ .less) (hsync : isMemberSync kind = false) :
    kindOf (ps ++ (bs ++ last :: us)) ≠ kind := by
  have hend : kindOf (last :: us) = .atEnd := hlast
  rcases h.starts (hbody.starts hend) with hkind | hkind
  · rw [hkind]
    exact hless.symm
  · exact ne_of_isMemberSync hkind hsync

theorem builds_optionalSuperclass {ss : List Token} {superclass : Option String}
    (h : SuperclassSpelling ss superclass) (hus : kindOf us ≠ .colon)
    (hs : Halved s.rest (ss ++ us)) :
    Builds optionalSuperclass us (fun _ k cs => k = none ∧ Shows cs superclass.toList [] []) s := by
  unfold optionalSuperclass
  refine .state ?_
  cases h with
  | none =>
    have hc : s.current ≠ .colon := hs.kindOf_ne hus (by decide)
    rw [if_neg hc]
    exact .pure hs ⟨rfl, .nil⟩
  | @some colon name hcolon hname =>
    have hc : s.current = .colon := hs.kindOf_of hcolon (by decide)
    rw [if_pos hc]
    refine .bindQuiet (quiet_punctuationHere (by rw [hcolon]; decide) hs) fun _ s₁ h₁ _ => ?_
    refine .bindQuiet (.of_finds (.identifier hname _ h₁.rest)) fun i s₂ h₂ hi => ?_
    subst hi
    exact .leaf h₂.rest fun id => ⟨rfl, rfl, rfl, rfl⟩

theorem collects_names {names : List String} {as : List Ident} {cs : List Node}
    (h : Collects (fun name (i : Ident) cs => i.name = name ∧ cs = []) names as cs) :
    as.map Ident.name = names ∧ cs = [] := by
  induction h with
  | nil => exact ⟨rfl, rfl⟩
  | cons hfirst _ ih =>
    obtain ⟨rfl, rfl⟩ := hfirst
    exact ⟨congrArg _ ih.1, ih.2⟩

/-- A list of protocols adds a node that shows it. -/
theorem builds_protocolList {less greater : Token} {names inner : List Token}
    (hless : less.kind = .less) (heach : ∀ t ∈ names, t.kind = .identifier)
    (hc : Commas (names.map fun t => [t]) inner) (hgreater : greater.kind = .greater)
    (hs : Halved s.rest (less :: (inner ++ greater :: us))) :
    Builds protocolList us
      (fun _ k cs => k = none ∧ Shows cs [] [names.map (·.text)] []) s := by
  have hitems : BuildsItems (identifier .conformance) .greater
      (names.map fun t => ([t], t.text)) (fun name (i : Ident) cs => i.name = name ∧ cs = []) := by
    refine ⟨fun p hp us s _ hs => ?_, fun p hp => ?_⟩
    · obtain ⟨t, ht, rfl⟩ := List.mem_map.mp hp
      refine .of_quiet (.of_finds (.identifier (heach t ht) _ hs)) fun i hi => ?_
      rw [hi]
      exact ⟨rfl, rfl, rfl⟩
    · obtain ⟨t, ht, rfl⟩ := List.mem_map.mp hp
      exact heach t ht
  have hcommas : Commas ((names.map fun t => ([t], t.text)).map Prod.fst) inner := by
    rw [List.map_map]
    exact hc
  have hinner : ∀ s₀ : ReadState, Halved s₀.rest (less :: (inner ++ greater :: us)) →
      Builds (do setKind (.protocolList (← list true .less .greater (identifier .conformance))))
        us (fun _ k _ => ∃ is : List Ident, k = some (.protocolList is) ∧
          is.map Ident.name = names.map (·.text)) s₀ := by
    intro s₀ hs
    refine (builds_list hless (by decide) hgreater (by decide) hitems hcommas hs).bind
      fun is k cs s₁ h₁ hlist => ?_
    obtain ⟨rfl, hcollects⟩ := hlist
    refine .setKind h₁.rest ⟨is, rfl, ?_⟩
    rw [(collects_names hcollects).1, List.map_map]
    rfl
  unfold protocolList
  refine Builds.withNode _ (hinner _ hs) fun _ k all id range hnode => ?_
  obtain ⟨is, rfl, his⟩ := hnode
  exact ⟨rfl, rfl, congrArg (fun l => [l]) his, rfl⟩

theorem builds_optionalProtocolList {ps : List Token} {protocols : List String}
    (h : ConformanceSpelling ps protocols) (hus : kindOf us ≠ .less)
    (hs : Halved s.rest (ps ++ us)) :
    Builds optionalProtocolList us (fun _ k cs => k = none ∧
      ∃ lists : List (List String), lists.head?.getD [] = protocols ∧ Shows cs [] lists []) s := by
  cases h with
  | none =>
    have hc : s.current ≠ .less := hs.kindOf_ne hus (by decide)
    have hread : optionalProtocolList s = .done () s := if_neg hc
    exact .of_quiet (.of_done hread (.refl hs)) fun _ _ => ⟨rfl, [], rfl, .nil⟩
  | @list less greater names inner hless heach hcommas hgreater =>
    have hlist : Halved s.rest (less :: (inner ++ greater :: us)) := by simpa using hs
    have hc : s.current = .less := hlist.kindOf_of hless (by decide)
    have hbuilds := builds_protocolList hless heach hcommas hgreater hlist
    unfold Builds Ends at hbuilds
    unfold Builds Ends optionalProtocolList
    rw [if_pos hc]
    cases hr : protocolList s with
    | done a s' =>
      rw [hr] at hbuilds
      obtain ⟨k, cs, hgrown, rfl, hshows⟩ := hbuilds
      exact ⟨none, cs, hgrown, rfl, _, rfl, hshows⟩
    | failed e s' => rw [hr] at hbuilds; exact hbuilds.elim
    | broken f => trivial

theorem quiet_variableBlock (hus : kindOf us ≠ .leftBrace) (hs : Halved s.rest us) :
    Quiet variableBlock us (fun _ => True) s := by
  have hc : s.current ≠ .leftBrace := hs.kindOf_ne hus (by decide)
  have hread : variableBlock s = .done () s := congrArg (Outcome.done ()) (if_neg hc)
  exact (Quiet.of_done hread (.refl hs)).mono fun _ _ => trivial

/-- Declarations were added, and they show these. -/
def AddsDeclarations (ds : List Declaration) (_ : Unit) (kind : Option NodeKind)
    (cs : List Node) : Prop :=
  kind = none ∧ (cs.filter Node.isDeclaration).map Node.declared? = ds.map some

/-- The parts of a declaration behind its name and superclass. -/
theorem builds_classRest {ps bs : List Token} {last : Token} {protocols : List String}
    {members : List Member} (hconforms : ConformanceSpelling ps protocols)
    (hbody : BodySpelling false false bs members) (hlast : last.kind = .atEnd)
    (hsection : s.inOptional = false) (hs : Halved s.rest (ps ++ (bs ++ last :: us))) :
    Builds (do
      optionalProtocolList
      variableBlock
      body .classMember false
      keyword .atEnd .classEnd) us (fun _ k cs => k = none ∧
        ∃ lists : List (List String), lists.head?.getD [] = protocols ∧ Shows cs [] lists members)
      s := by
  have hend : kindOf (last :: us) = .atEnd := hlast
  have hsync := hbody.starts hend
  refine (builds_optionalProtocolList hconforms (ne_of_isMemberSync hsync rfl) hs).bind
    fun _ k cs s₁ h₁ hprotocols => ?_
  obtain ⟨rfl, lists, rfl, hlists⟩ := hprotocols
  refine .bindQuiet (quiet_variableBlock (ne_of_isMemberSync hsync rfl) h₁.rest)
    fun _ s₂ h₂ _ => ?_
  have hsection₂ : s₂.inOptional = false := (h₂.inOptional.trans h₁.inOptional).trans hsection
  refine (builds_body hbody _ hend hsection₂ h₂.rest).bind fun _ k cs' s₃ h₃ hmembers => ?_
  obtain ⟨rfl, hmembers⟩ := hmembers
  refine .of_quiet (quiet_keyword hlast (by decide) _ h₃.rest) fun _ _ => ⟨rfl, lists, rfl, ?_⟩
  have hall := (hlists.append hmembers).append .nil
  simpa using hall

theorem builds_classInterface {directive name last : Token} {ss ps bs : List Token}
    {superclass : Option String} {protocols : List String} {members : List Member}
    (hdirective : directive.kind = .atInterface) (hname : name.kind = .identifier)
    (hderived : SuperclassSpelling ss superclass) (hconforms : ConformanceSpelling ps protocols)
    (hbody : BodySpelling false false bs members) (hlast : last.kind = .atEnd)
    (hsection : s.inOptional = false)
    (hs : Halved s.rest (directive :: name :: (ss ++ (ps ++ (bs ++ last :: us))))) :
    Builds classInterface us
      (AddsDeclarations [.classInterface name.text superclass protocols members]) s := by
  have hcolon : kindOf (ps ++ (bs ++ last :: us)) ≠ .colon :=
    hconforms.kindOf_ne hbody hlast (by decide) rfl
  unfold classInterface
  refine Builds.withNode (fun _ k cs => k = some (.classInterface (.valid ⟨name.text, name.span⟩)) ∧
    ∃ lists : List (List String), lists.head?.getD [] = protocols ∧
      Shows cs superclass.toList lists members) ?_ ?_
  · refine .bindQuiet (quiet_keywordHere (by rw [hdirective]; decide) hs) fun _ s₁ h₁ _ => ?_
    refine .bindQuiet (.of_finds (.identifier hname _ h₁.rest)) fun i s₂ h₂ hi => ?_
    subst hi
    have hkind : Builds (setKind (.classInterface (.valid ⟨name.text, name.span⟩)))
        (ss ++ (ps ++ (bs ++ last :: us))) (fun _ k cs =>
          k = some (.classInterface (.valid ⟨name.text, name.span⟩)) ∧ cs = []) s₂ :=
      .setKind h₂.rest ⟨rfl, rfl⟩
    refine hkind.bind fun _ k cs s₃ h₃ hset => ?_
    obtain ⟨rfl, rfl⟩ := hset
    refine (builds_optionalSuperclass hderived hcolon h₃.rest).bind
      fun _ k cs s₄ h₄ hsuperclass => ?_
    obtain ⟨rfl, hsuperclass⟩ := hsuperclass
    have hsection₄ : s₄.inOptional = false := by
      rw [h₄.inOptional, h₃.inOptional, h₂.inOptional, h₁.inOptional]
      exact hsection
    refine (builds_classRest hconforms hbody hlast hsection₄ h₄.rest).mono
      fun _ k cs' hrest => ?_
    obtain ⟨rfl, lists, hlists, hshows⟩ := hrest
    refine ⟨rfl, lists, hlists, ?_⟩
    have hall := hsuperclass.append hshows
    simpa using hall
  · intro _ k all id range hnode
    obtain ⟨rfl, lists, rfl, hshows⟩ := hnode
    exact ⟨rfl, congrArg (fun d => [d]) (hshows.of_unmarked.classInterface _)⟩

theorem builds_protocolDeclaration {directive name last : Token} {ps bs : List Token}
    {protocols : List String} {members : List Member} (hdirective : directive.kind = .atProtocol)
    (hname : name.kind = .identifier) (hconforms : ConformanceSpelling ps protocols)
    (hbody : BodySpelling true false bs members) (hlast : last.kind = .atEnd)
    (hsection : s.inOptional = false)
    (hs : Halved s.rest (directive :: name :: (ps ++ (bs ++ last :: us)))) :
    Builds protocolDeclaration us
      (AddsDeclarations [.protocolDeclaration name.text protocols members]) s := by
  have hend : kindOf (last :: us) = .atEnd := hlast
  have hless : kindOf (bs ++ last :: us) ≠ .less := ne_of_isMemberSync (hbody.starts hend) rfl
  unfold protocolDeclaration
  refine Builds.withNode (fun _ k cs =>
    k = some (.protocolDeclaration (.valid ⟨name.text, name.span⟩)) ∧
      ∃ lists : List (List String), lists.head?.getD [] = protocols ∧
        Shows cs [] lists members) ?_ ?_
  · refine .bindQuiet (quiet_keywordHere (by rw [hdirective]; decide) hs) fun _ s₁ h₁ _ => ?_
    refine .bindQuiet (.of_finds (.identifier hname _ h₁.rest)) fun i s₂ h₂ hi => ?_
    subst hi
    have hkind : Builds (setKind (.protocolDeclaration (.valid ⟨name.text, name.span⟩)))
        (ps ++ (bs ++ last :: us)) (fun _ k cs =>
          k = some (.protocolDeclaration (.valid ⟨name.text, name.span⟩)) ∧ cs = []) s₂ :=
      .setKind h₂.rest ⟨rfl, rfl⟩
    refine hkind.bind fun _ k cs s₃ h₃ hset => ?_
    obtain ⟨rfl, rfl⟩ := hset
    refine (builds_optionalProtocolList hconforms hless h₃.rest).bind
      fun _ k cs s₄ h₄ hprotocols => ?_
    obtain ⟨rfl, lists, hlists, hshows⟩ := hprotocols
    have hsection₄ : s₄.inOptional = false := by
      rw [h₄.inOptional, h₃.inOptional, h₂.inOptional, h₁.inOptional]
      exact hsection
    refine (builds_body hbody _ hend hsection₄ h₄.rest).bind fun _ k cs' s₅ h₅ hmembers => ?_
    obtain ⟨rfl, hmembers⟩ := hmembers
    refine .of_quiet (quiet_keyword hlast (by decide) _ h₅.rest) fun _ _ => ?_
    refine ⟨rfl, lists, hlists, ?_⟩
    have hall := hshows.append hmembers
    simpa using hall
  · intro _ k all id range hnode
    obtain ⟨rfl, lists, rfl, hshows⟩ := hnode
    exact ⟨rfl, congrArg (fun d => [d]) (hshows.of_unmarked.protocolDeclaration _)⟩

/-- The rule for the directive of a declaration adds the declaration. -/
theorem builds_declaration {ts : List Token} {d : Declaration} (h : DeclarationSpelling ts d)
    (hsection : s.inOptional = false) (hs : Halved s.rest (ts ++ us)) :
    Builds (if d.isProtocol then protocolDeclaration else classInterface) us
      (AddsDeclarations [d]) s := by
  cases h with
  | classInterface hdirective hname hderived hconforms hbody hlast =>
    exact builds_classInterface hdirective hname hderived hconforms hbody hlast hsection
      (by simpa using hs)
  | protocolDeclaration hdirective hname hconforms hbody hlast =>
    exact builds_protocolDeclaration hdirective hname hconforms hbody hlast hsection
      (by simpa using hs)

/-! ## Headers -/

theorem starts_of_cons {directive name : Token} {kind : TokenKind}
    (hdirective : directive.kind = kind) (hkind : kind ≠ .greater)
    (hname : name.kind = .identifier) (hus : kindOf us ≠ .semicolon ∧ kindOf us ≠ .comma)
    (hs : Halved s.rest (directive :: name :: us)) :
    s.current = kind ∧ s.second = .identifier ∧ s.third ≠ .semicolon ∧ s.third ≠ .comma := by
  obtain ⟨ts, hr, hts⟩ := hs.of_cons (by rwa [hdirective])
  obtain ⟨ts', rfl, hts'⟩ := hts.of_cons (by rw [hname]; decide)
  unfold ReadState.current ReadState.second ReadState.third
  rw [hr]
  exact ⟨hdirective, hname, hts'.kindOf_ne hus.1 (by decide), hts'.kindOf_ne hus.2 (by decide)⟩

/-- A declaration starts with its directive and its name, and more of it than that stands behind. -/
theorem DeclarationSpelling.starts {ts : List Token} {d : Declaration}
    (h : DeclarationSpelling ts d) (hs : Halved s.rest (ts ++ us)) :
    s.current = (if d.isProtocol then .atProtocol else .atInterface) ∧ s.second = .identifier ∧
      s.third ≠ .semicolon ∧ s.third ≠ .comma := by
  cases h with
  | @classInterface directive name last ss ps bs _ _ _ hdirective hname hderived hconforms hbody
      hlast =>
    have hbehind : kindOf (ss ++ (ps ++ (bs ++ last :: us))) ≠ .semicolon ∧
        kindOf (ss ++ (ps ++ (bs ++ last :: us))) ≠ .comma := by
      cases hderived with
      | none => exact ⟨hconforms.kindOf_ne hbody hlast (by decide) rfl,
          hconforms.kindOf_ne hbody hlast (by decide) rfl⟩
      | some hcolon _ =>
        rw [List.cons_append, ReadState.kindOf_cons, hcolon]
        decide
    exact starts_of_cons hdirective (show TokenKind.atInterface ≠ .greater by decide) hname hbehind
      (by simpa using hs)
  | protocolDeclaration hdirective hname hconforms hbody hlast =>
    exact starts_of_cons hdirective (show TokenKind.atProtocol ≠ .greater by decide) hname
      ⟨hconforms.kindOf_ne hbody hlast (by decide) rfl,
        hconforms.kindOf_ne hbody hlast (by decide) rfl⟩
      (by simpa using hs)

theorem AddsDeclarations.cons {d : Declaration} {ds : List Declaration} {kind : Option NodeKind}
    {cs cs' : List Node} (h : AddsDeclarations [d] () none cs)
    (h' : AddsDeclarations ds () kind cs') :
    AddsDeclarations (d :: ds) () (kind.or none) (cs ++ cs') := by
  refine ⟨by rw [h'.1]; rfl, ?_⟩
  rw [List.filter_append, List.map_append, h.2, h'.2]
  rfl

/-- The first declaration of a header is added by the rule for its directive. -/
theorem builds_firstDeclaration {ts : List Token} {d : Declaration} {ds : List Declaration}
    (h : DeclarationSpelling ts d) (fuel : Nat) (hsection : s.inOptional = false)
    (hs : Halved s.rest (ts ++ us))
    (hmore : ∀ s₁ : ReadState, s₁.inOptional = false → Halved s₁.rest us →
      Builds (declarations fuel) [] (AddsDeclarations ds) s₁) :
    Builds (declarations (fuel + 1)) [] (AddsDeclarations (d :: ds)) s := by
  obtain ⟨hc, _, hthird⟩ := h.starts hs
  have hround : Builds (do
      recoverDeclaration (if d.isProtocol then protocolDeclaration else classInterface)
      declarations fuel) [] (AddsDeclarations (d :: ds)) s := by
    refine (builds_recoverDeclaration (builds_declaration h hsection hs)).bind
      fun _ k cs s₁ h₁ hadds => ?_
    obtain rfl : k = none := hadds.1
    refine (hmore s₁ (h₁.inOptional.trans hsection) h₁.rest).mono fun _ k cs' hrest => ?_
    exact hadds.cons hrest
  unfold declarations
  refine .state ?_
  cases hprotocol : d.isProtocol with
  | false =>
    rw [hprotocol] at hc hround
    simp only [hc]
    exact hround
  | true =>
    rw [hprotocol] at hc hround
    simp only [hc, isForwardProtocol_eq_false hthird]
    exact hround

/-- The declarations of a header are added in order. -/
theorem builds_declarations {ts : List Token} {ds : List Declaration} (h : HeaderSpelling ts ds)
    (fuel : Nat) : ∀ s : ReadState, s.inOptional = false → Halved s.rest ts →
      Builds (declarations fuel) [] (AddsDeclarations ds) s := by
  induction h generalizing fuel with
  | done =>
    intro s _ hs
    cases fuel with
    | zero => exact trivial
    | succ fuel =>
      have hc : s.current = .endOfFile := by
        unfold ReadState.current
        rw [hs.of_nil]
        rfl
      unfold declarations
      refine .state ?_
      simp only [hc]
      exact .pure hs ⟨rfl, rfl⟩
  | declaration hfirst _ ih =>
    intro s hsection hs
    cases fuel with
    | zero => exact trivial
    | succ fuel => exact builds_firstDeclaration hfirst fuel hsection hs (ih fuel)

end HeaderBridge.Grammar
