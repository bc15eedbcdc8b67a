/-
  The rules for types and properties build what their spellings say. A property adds one node to
  the declaration around it, and this node shows the property that is spelt, in the section that
  the reading stands in.
-/
import HeaderBridge.Proofs.Header.Building
import HeaderBridge.Proofs.Header.Spelling

namespace HeaderBridge.Grammar

open Rule
open ReadState (kindOf)

variable {s : ReadState} {us : List Token}

/-! ## Types -/

theorem StatedSpelling.starts {ts : List Token} {type : StatedType} (h : StatedSpelling ts type)
    (us : List Token) : kindOf (ts ++ us) = .identifier := by
  cases h with
  | @stated qualifiers body _ _ hq _ hspelt =>
    rw [List.append_assoc]
    cases qualifiers with
    | nil => exact hspelt.starts us
    | cons q qualifiers => exact (hq q List.mem_cons_self).kind

theorem finds_failingAs {α : Type} {r : Rule α} {front : List Token} {a : α}
    {cause : SyntaxError.Cause} (h : Finds r front us a s) :
    Finds (failingAs cause r) front us a s := by
  unfold Finds Ends at h
  unfold Finds Ends failingAs
  cases hr : r s with
  | done b s' => rw [hr] at h; exact h
  | failed e s' => rw [hr] at h; exact h.elim
  | broken f => trivial

/-- A type name is read with its nullability. -/
theorem quiet_typeName {ts : List Token} {type : StatedType} (h : StatedSpelling ts type)
    (hends : EndsType us) (hs : Halved s.rest (ts ++ us)) :
    Quiet typeName us (fun t => t.stated = type) s := by
  cases h with
  | @stated quals body type behind hq hfree hspelt =>
    rw [List.append_assoc] at hs
    unfold typeName
    refine .state ?_
    refine (Quiet.of_finds (finds_qualifiers hq (hspelt.free_append hfree us) hs)).bind
      fun inFront s₁ h₁ hfront => .state ?_
    refine (Quiet.of_finds (finds_failingAs (finds_objcType hspelt _ us _ hends h₁.rest))).bind
      fun found s₂ h₂ hfound => .state ?_
    subst hfront hfound
    simp only []
    split
    · exact .pure h₂.rest rfl
    · trivial

theorem EndsType.of_rightParen {t : Token} (hk : t.kind = .rightParen) (ts : List Token) :
    EndsType (t :: ts) := by
  refine .of_kindOf ?_ ?_ ?_
  all_goals
    rw [ReadState.kindOf_cons, hk]
    decide

theorem quiet_optionalType {ts : List Token} {type : Option StatedType}
    (h : OptionalSpelling ts type) (hne : kindOf us ≠ .leftParen) (hs : Halved s.rest (ts ++ us)) :
    Quiet optionalType us (fun t => t.map TypeName.stated = type) s := by
  unfold optionalType
  refine .state ?_
  cases h with
  | none =>
    have hc : s.current ≠ .leftParen := hs.kindOf_ne hne (by decide)
    rw [if_neg hc]
    exact .pure hs rfl
  | @some opening closing ts type hopening hinside hclosing =>
    have hs' : Halved s.rest (opening :: (ts ++ closing :: us)) := by simpa using hs
    have hc : s.current = .leftParen := hs'.kindOf_of hopening (by decide)
    rw [if_pos hc]
    refine .map ?_
    unfold parenthesizedType
    refine (Quiet.of_finds (.advance (by rw [hopening]; decide) hs')).bind fun _ s₁ h₁ _ => ?_
    refine (quiet_typeName hinside (.of_rightParen hclosing us) h₁.rest).bind
      fun t s₂ h₂ ht => ?_
    refine (Quiet.of_finds (.expect hclosing (by decide) _ h₂.rest)).bind fun _ s₃ h₃ _ => ?_
    exact .pure h₃.rest (congrArg some ht)

/-! ## Properties -/

theorem ModifierSpelling.starts {ts : List Token} {m : PropertyModifier}
    (h : ModifierSpelling ts m) : kindOf ts = .identifier := by
  cases h with
  | word hword => exact hword
  | getter hword => exact hword
  | setter hword => exact hword

/-- A modifier adds a node that shows it. -/
theorem builds_propertyModifier {ts : List Token} {m : PropertyModifier}
    (h : ModifierSpelling ts m) (hends : kindOf us = .comma ∨ kindOf us = .rightParen)
    (hs : Halved s.rest (ts ++ us)) :
    Builds propertyModifier us (fun _ k cs => k = none ∧ cs.filterMap Node.modifier? = [m]) s := by
  have hne : ∀ kind, kind ≠ .comma → kind ≠ .rightParen → kindOf us ≠ kind := by
    intro kind hcomma hright hk
    rcases hends with h | h
    · exact hcomma (hk.symm.trans h)
    · exact hright (hk.symm.trans h)
  unfold propertyModifier
  cases h with
  | word hword =>
    refine .bindQuiet (.of_finds (.identifier hword _ hs)) fun name s₁ h₁ hname => ?_
    have hnone := hne .eq (by decide) (by decide)
    refine .bindQuiet (.of_finds (.eatNone hnone (by decide) h₁.rest)) fun found s₂ h₂ hfound => ?_
    subst hname hfound
    exact .leafFrom h₂.rest fun id range => ⟨rfl, rfl⟩
  | @getter word equals accessor hword hequals haccessor =>
    refine .bindQuiet (.of_finds (.identifier hword _ hs)) fun name s₁ h₁ hname => ?_
    refine .bindQuiet (.of_finds (.eat hequals (by decide) h₁.rest)) fun found s₂ h₂ hfound => ?_
    subst hname hfound
    refine .bindQuiet (.of_finds (.identifier haccessor _ h₂.rest)) fun name s₃ h₃ hname => ?_
    have hnone := hne .colon (by decide) (by decide)
    refine .bindQuiet (.of_finds (.eatNone hnone (by decide) h₃.rest)) fun colon s₄ h₄ hcolon => ?_
    subst hname hcolon
    exact .leafFrom h₄.rest fun id range => ⟨rfl, rfl⟩
  | @setter word equals accessor colon hword hequals haccessor hcolon =>
    refine .bindQuiet (.of_finds (.identifier hword _ hs)) fun name s₁ h₁ hname => ?_
    refine .bindQuiet (.of_finds (.eat hequals (by decide) h₁.rest)) fun found s₂ h₂ hfound => ?_
    subst hname hfound
    refine .bindQuiet (.of_finds (.identifier haccessor _ h₂.rest)) fun name s₃ h₃ hname => ?_
    refine .bindQuiet (.of_finds (.eat hcolon (by decide) h₃.rest)) fun colon s₄ h₄ hcolon => ?_
    subst hname hcolon
    exact .leafFrom h₄.rest fun id range => ⟨rfl, rfl⟩

theorem collects_modifiers {ms : List PropertyModifier} {as : List Unit} {cs : List Node}
    (h : Collects (fun m _ cs => cs.filterMap Node.modifier? = [m]) ms as cs) :
    cs.filterMap Node.modifier? = ms := by
  induction h with
  | nil => rfl
  | cons hfirst _ ih => rw [List.filterMap_append, hfirst, ih]; rfl

theorem modifier?_of_isMark {n : Node} (h : n.isMark = true) : n.modifier? = none := by
  unfold Node.isMark at h
  unfold Node.modifier?
  split
  · next hk => rw [hk] at h; cases h
  · rfl

/-- A list of modifiers adds a node that shows them. -/
theorem builds_modifierList {opening closing : Token} {inner : List Token}
    {modifiers : List (List Token × PropertyModifier)} (hopening : opening.kind = .leftParen)
    (heach : ∀ m ∈ modifiers, ModifierSpelling m.1 m.2)
    (hc : Commas (modifiers.map Prod.fst) inner) (hclosing : closing.kind = .rightParen)
    (hs : Halved s.rest (opening :: (inner ++ closing :: us))) :
    Builds modifierList us
      (fun _ k cs => k = none ∧ Node.modifiersAmong cs = modifiers.map Prod.snd) s := by
  have hitems : BuildsItems propertyModifier .rightParen modifiers
      (fun m _ cs => cs.filterMap Node.modifier? = [m]) :=
    ⟨fun m hm us s hends hs => builds_propertyModifier (heach m hm) hends hs,
      fun m hm => (heach m hm).starts⟩
  have hinner : ∀ s₀ : ReadState, Halved s₀.rest (opening :: (inner ++ closing :: us)) →
      Builds (do let _ ← list true .leftParen .rightParen propertyModifier) us
        (fun _ k cs => k = none ∧ cs.filterMap Node.modifier? = modifiers.map Prod.snd) s₀ := by
    intro s₀ hs
    refine (builds_list hopening (by decide) hclosing (by decide) hitems hc hs).bind
      fun _ k cs s₁ h₁ hlist => ?_
    obtain ⟨rfl, hcollects⟩ := hlist
    refine .pure h₁.rest ⟨rfl, ?_⟩
    rw [List.append_nil]
    exact collects_modifiers hcollects
  unfold modifierList
  refine Builds.withNode _ (hinner _ hs) fun _ k all id range h => ?_
  obtain ⟨rfl, hall⟩ := h
  rw [filterMap_unmarked fun n hn => modifier?_of_isMark hn] at hall
  refine ⟨rfl, ?_⟩
  rw [← hall]
  exact List.append_nil _

theorem NamesProperty.endsType {name : Token} (h : NamesProperty name) (ts : List Token) :
    EndsType (name :: ts) := by
  refine ⟨?_, ?_, h.no_qualifier, fun t ht _ => ?_⟩
  · rw [ReadState.kindOf_cons, h.kind]
    decide
  · rw [ReadState.kindOf_cons, h.kind]
    decide
  · obtain rfl : name = t := Option.some.inj ht
    exact h.no_word

/-- One node was added, and it shows this member. -/
def AddsMember (m : Member) (_ : Unit) (kind : Option NodeKind) (cs : List Node) : Prop :=
  kind = none ∧ cs.map Node.member? = [some m]

/-- The type and the name of a property, and the semicolon behind them. -/
theorem builds_propertyRest {ts : List Token} {type : StatedType} {name semicolon : Token}
    {isOptional : Bool} (htype : StatedSpelling ts type) (hname : NamesProperty name)
    (hsemicolon : semicolon.kind = .semicolon)
    (hs : Halved s.rest (ts ++ name :: semicolon :: us)) :
    Builds (do
      let type ← recover typeName fun kind =>
        kind == .identifier || kind == .semicolon || isMemberSync kind
      let name ← propertyName type
      setKind (.property ⟨type, name, isOptional⟩)
      if (type.isInvalid || name.isInvalid) && (← Rule.state).current != .semicolon then return
      punctuation .semicolon .propertyEnd) us
      (fun _ k cs => cs = [] ∧ ∃ t i, k = some (.property ⟨.valid t, .valid i, isOptional⟩) ∧
        t.stated = type ∧ i.name = name.text) s := by
  have hread : Quiet typeName (name :: semicolon :: us) (fun t => t.stated = type) s :=
    quiet_typeName htype (hname.endsType _) hs
  have hslot : Quiet (recover typeName fun kind =>
      kind == .identifier || kind == .semicolon || isMemberSync kind) (name :: semicolon :: us)
      (fun slot => ∃ t, slot = .valid t ∧ t.stated = type) s := by
    refine .recover (Ends.mono hread (fun t _ ht => ?_) fun _ _ h => h)
    exact ⟨ht.1, t, rfl, ht.2⟩
  refine .bindQuiet hslot fun slot s₁ h₁ hslot => ?_
  obtain ⟨t, rfl, ht⟩ := hslot
  have hident : Quiet (propertyName (.valid t)) (semicolon :: us)
      (fun slot => slot = .valid ⟨name.text, name.span⟩) s₁ := by
    unfold propertyName
    refine .state ?_
    rw [if_neg (by simp [Slot.isInvalid])]
    refine .recover (Ends.mono (Quiet.of_finds (.identifier hname.kind _ h₁.rest))
      (fun i _ hi => ⟨hi.1, congrArg Slot.valid hi.2⟩) fun _ _ h => h)
  refine .bindQuiet hident fun slot s₂ h₂ hslot => ?_
  subst hslot
  have hkind : Builds (setKind (.property ⟨.valid t, .valid ⟨name.text, name.span⟩, isOptional⟩))
      (semicolon :: us) (fun _ k cs => k = some (.property
        ⟨.valid t, .valid ⟨name.text, name.span⟩, isOptional⟩) ∧ cs = []) s₂ :=
    .setKind h₂.rest ⟨rfl, rfl⟩
  refine hkind.bind fun _ k cs s₃ h₃ hset => .state ?_
  obtain ⟨rfl, rfl⟩ := hset
  rw [if_neg (by simp [Slot.isInvalid])]
  refine .of_quiet (quiet_punctuation hsemicolon (by decide) _ h₃.rest) fun _ _ => ?_
  exact ⟨rfl, t, _, rfl, ht, rfl⟩

theorem modifiersAmong_unmarked (cs : List Node) :
    Node.modifiersAmong (unmarked cs) = Node.modifiersAmong cs := by
  induction cs with
  | nil => rfl
  | cons n cs ih =>
    unfold Node.modifiersAmong at ih ⊢
    unfold unmarked at ih ⊢
    rw [List.filter_cons]
    split
    · rw [List.flatMap_cons, List.flatMap_cons, ih]
    · next hn =>
      rw [List.flatMap_cons, ih]
      unfold Node.isMark at hn
      split at hn
      · next hk => rw [hk]; rfl
      · next hk => rw [hk]; rfl
      · exact absurd rfl hn

/-- A property adds a node that shows it, in the section that the reading stands in. -/
theorem builds_property {ts : List Token} {p : DeclaredProperty} (h : PropertySpelling ts p)
    (hsection : s.inOptional = p.isOptional) (hs : Halved s.rest (ts ++ us)) :
    Builds property us (AddsMember (.property p)) s := by
  cases h with
  | @property directive name semicolon ms ts modifiers type isOptional hdirective hmodified htyped
      hnamed hsemicolon =>
    obtain rfl : s.inOptional = isOptional := hsection
    have hrow : directive :: (ms ++ (ts ++ [name, semicolon])) ++ us =
        directive :: (ms ++ (ts ++ name :: semicolon :: us)) := by simp
    rw [hrow] at hs
    unfold property
    refine .state (Builds.withNode (fun _ k cs =>
      ∃ t i, k = some (.property ⟨.valid t, .valid i, s.inOptional⟩) ∧ t.stated = type ∧
        i.name = name.text ∧ Node.modifiersAmong cs = modifiers) ?_ ?_)
    · have hfirst : directive.kind ≠ .greater := by rw [hdirective]; decide
      refine .bindQuiet (quiet_keywordHere hfirst hs) fun _ s₁ h₁ _ => .state ?_
      cases hmodified with
      | none =>
        have hparen : s₁.current ≠ .leftParen := by
          refine h₁.rest.kindOf_ne ?_ (by decide)
          rw [List.nil_append, htyped.starts]
          decide
        rw [if_neg hparen]
        refine (builds_propertyRest htyped hnamed hsemicolon h₁.rest).mono fun _ k cs hrest => ?_
        obtain ⟨rfl, t, i, rfl, ht, hi⟩ := hrest
        exact ⟨t, i, rfl, ht, hi, rfl⟩
      | @list opening closing inner modifiers hopening heach hc hclosing =>
        have hlist : Halved s₁.rest
            (opening :: (inner ++ closing :: (ts ++ name :: semicolon :: us))) := by
          simpa using h₁.rest
        rw [if_pos (show s₁.current = .leftParen from
          hlist.kindOf_of hopening (by decide))]
        refine (builds_modifierList hopening heach hc hclosing hlist).bind
          fun _ k cs s₂ h₂ hmodifiers => ?_
        obtain ⟨rfl, hmodifiers⟩ := hmodifiers
        refine (builds_propertyRest htyped hnamed hsemicolon h₂.rest).mono fun _ k cs hrest => ?_
        obtain ⟨rfl, t, i, rfl, ht, hi⟩ := hrest
        exact ⟨t, i, rfl, ht, hi, by rw [List.append_nil]; exact hmodifiers⟩
    · intro _ k all id range hnode
      obtain ⟨t, i, rfl, ht, hi, hall⟩ := hnode
      rw [modifiersAmong_unmarked] at hall
      refine ⟨rfl, ?_⟩
      change [some (Member.property ⟨Node.modifiersAmong all, t.stated, i.name, s.inOptional⟩)] = _
      rw [hall, ht, hi]

end HeaderBridge.Grammar
