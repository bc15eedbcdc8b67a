/-
  The rules for types find every spelling of a type. Where the tokens of a spelling stand in front
  of tokens at which a type may end, reading comes to the type that is spelt and stands behind
  these tokens; the closing bracket of a list may be the first half of a double one.
-/
import HeaderBridge.Proofs.Types.Spelling

namespace HeaderBridge

/-! ## The tokens of types -/

/-- Tokens of the kinds that types are made of. -/
def OfTypes (ts : List Token) : Prop :=
  ∀ t ∈ ts, t.kind ∈ [TokenKind.identifier, .less, .greater, .comma, .star]

namespace OfTypes

variable {t : Token} {ts us : List Token} {kind : TokenKind}

theorem single (ht : t.kind = kind)
    (hkind : kind ∈ [TokenKind.identifier, .less, .greater, .comma, .star]) : OfTypes [t] :=
  List.forall_mem_singleton.mpr (ht ▸ hkind)

theorem append (hts : OfTypes ts) (hus : OfTypes us) : OfTypes (ts ++ us) :=
  List.forall_mem_append.mpr ⟨hts, hus⟩

theorem cons (ht : t.kind = kind)
    (hkind : kind ∈ [TokenKind.identifier, .less, .greater, .comma, .star]) (hts : OfTypes ts) :
    OfTypes (t :: ts) :=
  append (single ht hkind) hts

theorem of_identifiers (h : ∀ t ∈ ts, t.kind = .identifier) : OfTypes ts := fun t ht => by
  rw [h t ht]
  decide

theorem of_commas {pieces : List (List Token)} (h : ∀ piece ∈ pieces, OfTypes piece)
    (hc : Commas pieces ts) : OfTypes ts :=
  hc.closed (List.forall_mem_nil _) append (fun hk => cons hk (by decide)) h

end OfTypes

namespace Grammar

open Rule
open ReadState (kindOf)

variable {s : ReadState} {us : List Token}

/-! ## Words in front of others -/

theorem NoWord.of_ne (h : kindOf us ≠ .identifier) : NoWord us := by
  intro t ht hword
  cases us with
  | nil => cases ht
  | cons u us =>
    rw [List.head?_cons, Option.mem_some_iff] at ht
    exact absurd (by rw [ReadState.kindOf_cons, ht, hword]) h

theorem startsWithQualifier_of_kindOf (h : kindOf us ≠ .identifier) :
    startsWithQualifier us = false := by
  cases us with
  | nil => rfl
  | cons t us => exact startsWithQualifier_of_ne h

/-- Taking brackets apart changes nothing about the words in front of which a type may end. -/
theorem NoWord.of_halved {ts : List Token} (h : NoWord us) (hts : Halved ts us) : NoWord ts := by
  cases hts with
  | nil => exact h
  | keep t _ => exact h
  | halve hv _ => exact .of_ne (by rw [ReadState.kindOf_cons, hv.kind]; decide)

theorem startsWithQualifier_of_halved {ts : List Token} (h : startsWithQualifier us = false)
    (hts : Halved ts us) : startsWithQualifier ts = false := by
  cases hts with
  | nil => exact h
  | keep t _ => exact h
  | halve hv _ => exact startsWithQualifier_of_ne (by rw [hv.kind]; decide)

theorem EndsType.of_kindOf (hl : kindOf us ≠ .less) (hs : kindOf us ≠ .star)
    (hi : kindOf us ≠ .identifier) : EndsType us :=
  ⟨hl, hs, startsWithQualifier_of_kindOf hi, .of_ne hi⟩

theorem EndsType.of_endsItem (h : EndsItem us) : EndsType us := by
  rcases h with h | h | h
  · exact .of_kindOf (by rw [h]; decide) (by rw [h]; decide) (by rw [h]; decide)
  · exact .of_kindOf (by rw [h]; decide) (by rw [h]; decide) (by rw [h]; decide)
  · exact .of_kindOf (by rw [h]; decide) (by rw [h]; decide) (by rw [h]; decide)

/-! ## Qualifiers, names and stars -/

theorem finds_qualifiers {quals : List Token} (hq : ∀ q ∈ quals, Qualifies q)
    (hfree : startsWithQualifier us = false) (hs : Halved s.rest (quals ++ us)) :
    Finds qualifiers quals us (lastNullability quals) s := by
  obtain ⟨ts, hr, hts⟩ := hs.of_append fun t ht => by rw [(hq t ht).kind]; decide
  have hread : s.readWhile startsWithQualifier = s.past quals ts :=
    ReadState.readWhile_of_append hr (fun t ht _ => (hq t ht).starts _)
      (Or.inr (startsWithQualifier_of_halved hfree hts))
  unfold qualifiers
  refine Finds.state (ends_bind.mpr (ends_modify.mpr ?_))
  rw [hread]
  refine ends_bind.mpr (ends_state.mpr (ends_pure.mpr ⟨?_, ts, rfl, hts⟩))
  rw [ReadState.past_position, Nat.add_sub_cancel, hr, List.take_left]

theorem nameWords_of_tail {last : String} {more ts : List Token} (h : NameTail last more)
    (hts : NoWord ts) : nameWords last (more ++ ts) = more.map (·.text) := by
  induction more generalizing last with
  | nil =>
    cases ts with
    | nil => rfl
    | cons t ts =>
      rw [List.nil_append]
      unfold nameWords
      rw [if_neg]
      · rfl
      · intro hc
        simp only [Bool.and_eq_true, beq_iff_eq, List.contains_eq_mem, decide_eq_true_iff] at hc
        exact hts t rfl hc.1.2 hc.2
  | cons t more ih =>
    obtain ⟨hlast, hkind, htext, hmore⟩ := h
    rw [List.cons_append]
    unfold nameWords
    rw [if_pos]
    · rw [ih hmore]
      rfl
    · simp only [Bool.and_eq_true, beq_iff_eq, List.contains_eq_mem, decide_eq_true_iff]
      exact ⟨⟨hlast, hkind⟩, htext⟩

theorem NameTail.kind {last : String} {more : List Token} (h : NameTail last more) :
    ∀ t ∈ more, t.kind = .identifier := by
  induction more generalizing last with
  | nil =>
    intro t ht
    cases ht
  | cons u more ih =>
    obtain ⟨_, hkind, _, hmore⟩ := h
    exact List.forall_mem_cons.mpr ⟨hkind, ih hmore⟩

theorem foldl_advance {α : Type} {words : List α} {front ts : List Token}
    (hr : s.rest = front ++ ts) (hl : words.length = front.length) :
    words.foldl (fun s _ => s.advance) s = s.past front ts := by
  induction words generalizing s front with
  | nil =>
    obtain rfl : front = [] := List.eq_nil_of_length_eq_zero hl.symm
    rw [List.nil_append] at hr
    rw [← hr]
    rfl
  | cons w words ih =>
    cases front with
    | nil => cases hl
    | cons t front =>
      have hl' : words.length = front.length := Nat.succ.inj hl
      rw [List.foldl_cons, ReadState.advance_of_cons hr, ih rfl hl', ReadState.past_past]
      rfl

theorem finds_baseName {words : List Token} {name : String} (h : NameSpelling words name)
    (hends : NoWord us) (hs : Halved s.rest (words ++ us)) : Finds baseName words us name s := by
  cases h with
  | @words first more hword htail =>
    unfold baseName
    refine (Finds.identifier hword _ hs).bind fun ts hts => Finds.state ?_
    obtain ⟨ts', hr, hts'⟩ := hts.of_append fun t ht => by rw [htail.kind t ht]; decide
    have hwords : nameWords first.text (s.past [first] ts).rest = more.map (·.text) := by
      rw [ReadState.past_rest, hr]
      exact nameWords_of_tail htail (hends.of_halved hts')
    simp only [hwords]
    refine ends_bind.mpr (ends_modify.mpr ?_)
    rw [foldl_advance (by rw [ReadState.past_rest, hr]) (List.length_map _)]
    exact ends_pure.mpr ⟨rfl, ts', rfl, hts'⟩

theorem finds_stars {type last : ObjcType} {found total : Option Nullability} {front : List Token}
    (h : Stars type found front last total) (hstar : kindOf us ≠ .star)
    (hfree : front ≠ [] → startsWithQualifier us = false) (fuel : Nat) (s : ReadState)
    (hs : Halved s.rest (front ++ us)) :
    Finds (stars fuel type found) front us (last, total) s := by
  induction h generalizing fuel s with
  | none type found =>
    cases fuel with
    | zero => exact trivial
    | succ fuel =>
      have hc : s.current ≠ .star := hs.kindOf_ne hstar (by decide)
      unfold stars
      refine ends_bind.mpr (ends_eat.mpr ⟨fun h => absurd h hc, fun _ => ?_⟩)
      exact Finds.pure hs
  | @star type last found total star quals rest hk hq hmore ih =>
    cases fuel with
    | zero => exact trivial
    | succ fuel =>
      rw [List.cons_append, List.append_assoc] at hs
      obtain ⟨ts, hr, hts⟩ := hs.of_cons (by rw [hk]; decide)
      have hc : s.current = .star := (ReadState.current_of_cons hr).trans hk
      unfold stars
      refine ends_bind.mpr (ends_eat.mpr ⟨fun _ => ?_, fun h => absurd hc h⟩)
      rw [ReadState.advance_of_cons hr, if_pos rfl]
      -- Behind the qualifiers of a star stands another star, or what follows the type.
      have hbehind : startsWithQualifier (rest ++ us) = false := by
        cases hmore with
        | none => exact hfree (List.cons_ne_nil _ _)
        | star hk' => exact startsWithQualifier_of_ne (by rw [hk']; decide)
      have hall : Finds (do stars fuel (.pointer type) ((← qualifiers).or found))
          (quals ++ rest) us (last, total) (s.past [star] ts) :=
        (finds_qualifiers hq hbehind hts).bind fun ts' hts' =>
          ih (fun _ => hfree (List.cons_ne_nil _ _)) fuel _ hts'
      refine hall.mono (fun found s₁ h₁ => ?_) fun _ _ h => h
      obtain ⟨rfl, ts', rfl, hts'⟩ := h₁
      exact ⟨rfl, ts', ReadState.past_past, hts'⟩

/-! ## Types -/

theorem NameSpelling.starts {words : List Token} {name : String} (h : NameSpelling words name)
    (ts : List Token) : kindOf (words ++ ts) = .identifier := by
  cases h with
  | words hword => exact hword

theorem Spelling.starts {ts : List Token} {type : ObjcType} {found : Option Nullability}
    (h : Spelling ts type found) (us : List Token) : kindOf (ts ++ us) = .identifier := by
  cases h with
  | plain hname _ =>
    rw [List.append_assoc]
    exact hname.starts _
  | protocols hid => exact hid.1
  | generic hname =>
    rw [List.append_assoc]
    exact hname.starts _

theorem Argument.starts {a : Argument} (hled : a.Led)
    (h : Spelling a.body a.type a.nullability) : kindOf a.tokens = .identifier := by
  unfold Argument.tokens
  cases hq : a.qualifiers with
  | nil =>
    have hbody := h.starts []
    rwa [List.append_nil] at hbody
  | cons q quals => exact (hled.qualify q (by rw [hq]; exact List.mem_cons_self)).kind

theorem Spelling.free_append {body : List Token} {type : ObjcType} {found : Option Nullability}
    (h : Spelling body type found) (hfree : startsWithQualifier body = false) (us : List Token) :
    startsWithQualifier (body ++ us) = false := by
  have hstart := h.starts []
  cases body with
  | nil => cases hstart
  | cons t body => exact hfree

theorem NameSpelling.kind {words : List Token} {name : String} (h : NameSpelling words name) :
    ∀ t ∈ words, t.kind = .identifier := by
  cases h with
  | words hword htail => exact List.forall_mem_cons.mpr ⟨hword, htail.kind⟩

theorem Stars.ofTypes {type last : ObjcType} {found total : Option Nullability} {ts : List Token}
    (h : Stars type found ts last total) : OfTypes ts := by
  induction h with
  | none => exact List.forall_mem_nil _
  | star hk hq _ ih =>
    exact .cons hk (by decide) (.append (.of_identifiers fun q h => (hq q h).kind) ih)

theorem Argument.ofTypes {a : Argument} (hled : a.Led) (h : OfTypes a.body) : OfTypes a.tokens :=
  .append (.of_identifiers fun q hq => (hled.qualify q hq).kind) h

theorem Spelling.ofTypes {ts : List Token} {type : ObjcType} {found : Option Nullability}
    (h : Spelling ts type found) : OfTypes ts := by
  induction h with
  | plain hname hstars => exact .append (.of_identifiers hname.kind) hstars.ofTypes
  | protocols hid hl hitems hc hg hstars =>
    have hinner : OfTypes _ := .of_commas (fun piece hpiece => by
      obtain ⟨t, ht, rfl⟩ := List.mem_map.mp hpiece
      exact .of_identifiers (List.forall_mem_singleton.mpr (hitems t ht))) hc
    exact .cons hid.1 (by decide) (.cons hl (by decide)
      (hinner.append (.cons hg (by decide) hstars.ofTypes)))
  | generic hname _ hl hled _ hc hg hstars ih =>
    have hinner : OfTypes _ := .of_commas (fun piece hpiece => by
      obtain ⟨a, ha, rfl⟩ := List.mem_map.mp hpiece
      exact Argument.ofTypes (hled a ha) (ih a ha)) hc
    exact .append (.of_identifiers hname.kind) (.cons hl (by decide)
      (hinner.append (.cons hg (by decide) hstars.ofTypes)))

/-! ## Finding types -/

/-- In front of stars stands the end of a name or of a list. -/
theorem Stars.noList {type last : ObjcType} {found total : Option Nullability}
    {front : List Token} (h : Stars type found front last total) (hends : EndsType us) :
    kindOf (front ++ us) ≠ .less ∧ NoWord (front ++ us) := by
  cases h with
  | none => exact ⟨hends.noList, hends.noWord⟩
  | star hk =>
    refine ⟨?_, .of_ne ?_⟩
    · rw [List.cons_append, ReadState.kindOf_cons, hk]
      decide
    · rw [List.cons_append, ReadState.kindOf_cons, hk]
      decide

theorem finds_starsBehind {type last : ObjcType} {total : Option Nullability}
    {front : List Token} (h : Stars type none front last total) (hends : EndsType us)
    (hs : Halved s.rest (front ++ us)) :
    Finds (do stars ((← state).weight + 1) type none) front us (last, total) s :=
  Finds.state (finds_stars h hends.noStar (fun _ => hends.noQualifier) _ s hs)

theorem findsItems_protocols {names : List Token} (h : ∀ t ∈ names, t.kind = .identifier) :
    FindsItems (Ident.name <$> identifier .conformance) (names.map fun t => ([t], t.text)) := by
  refine ⟨fun p hp us s _ hs => ?_, fun p hp => ?_⟩
  · obtain ⟨t, ht, rfl⟩ := List.mem_map.mp hp
    exact (Finds.identifier (h t ht) .conformance hs).map Ident.name
  · obtain ⟨t, ht, rfl⟩ := List.mem_map.mp hp
    exact h t ht

theorem findsItems_arguments {arguments : List Argument} {fuel : Nat}
    (hled : ∀ a ∈ arguments, a.Led) (hspelt : ∀ a ∈ arguments, Spelling a.body a.type a.nullability)
    (hfinds : ∀ a ∈ arguments, ∀ us s, EndsType us → Halved s.rest (a.body ++ us) →
      Finds (objcType fuel) a.body us (a.type, a.nullability) s) :
    FindsItems (do
      let _ ← qualifiers
      return (← objcType fuel).1) (arguments.map fun a => (a.tokens, a.type)) := by
  refine ⟨fun p hp us s hends hs => ?_, fun p hp => ?_⟩
  · obtain ⟨a, ha, rfl⟩ := List.mem_map.mp hp
    have hfree := (hspelt a ha).free_append (hled a ha).free us
    unfold Argument.tokens at hs ⊢
    rw [List.append_assoc] at hs
    refine (finds_qualifiers (hled a ha).qualify hfree hs).bind fun ts hts => ?_
    exact (hfinds a ha us _ (.of_endsItem hends) hts).map Prod.fst
  · obtain ⟨a, ha, rfl⟩ := List.mem_map.mp hp
    exact Argument.starts (hled a ha) (hspelt a ha)

/-- A name is found in front of a list, and the list with what stands behind it. -/
theorem finds_nameAndList {words inner behind us : List Token} {less greater : Token} {name : String}
    {v : ObjcType × Option Nullability} {listed bare : String → Rule (ObjcType × Option Nullability)}
    {s : ReadState} (hname : NameSpelling words name) (hl : less.kind = .less)
    (h : ∀ ts, Halved ts (less :: (inner ++ greater :: (behind ++ us))) →
      Finds (listed name) ((less :: (inner ++ [greater])) ++ behind) us v (s.past words ts))
    (hs : Halved s.rest (words ++ less :: (inner ++ greater :: behind) ++ us)) :
    Finds (do
      let name ← baseName
      if (← state).current = .less then listed name else bare name)
      (words ++ less :: (inner ++ greater :: behind)) us v s := by
  have hfront : words ++ less :: (inner ++ greater :: behind) =
      words ++ ((less :: (inner ++ [greater])) ++ behind) := by simp
  have hrow : words ++ less :: (inner ++ greater :: behind) ++ us =
      words ++ (less :: (inner ++ greater :: (behind ++ us))) := by simp
  have hword : NoWord (less :: (inner ++ greater :: (behind ++ us))) :=
    .of_ne (by rw [ReadState.kindOf_cons, hl]; decide)
  rw [hrow] at hs
  rw [hfront]
  refine (finds_baseName hname hword hs).bind fun ts hts => Finds.state ?_
  have hless : (s.past words ts).current = .less := hts.kindOf_of hl (by decide)
  rw [if_pos hless]
  exact h ts hts

/-- Reading a type finds every spelling of one. -/
theorem finds_objcType {front : List Token} {type : ObjcType} {found : Option Nullability}
    (h : Spelling front type found) :
    ∀ (fuel : Nat) (us : List Token) (s : ReadState), EndsType us → Halved s.rest (front ++ us) →
      Finds (objcType fuel) front us (type, found) s := by
  induction h with
  | @plain words behind name type found hname hstars =>
    intro fuel us s hends hs
    cases fuel with
    | zero => exact trivial
    | succ fuel =>
      obtain ⟨hlist, hword⟩ := hstars.noList hends
      unfold objcType
      rw [List.append_assoc] at hs
      refine (finds_baseName hname hword hs).bind fun ts hts => Finds.state ?_
      have hc : (s.past words ts).current ≠ .less := hts.kindOf_ne hlist (by decide)
      simp only [hc, if_false]
      exact finds_starsBehind hstars hends hts
  | @protocols word less greater names inner behind type found hid hl hitems hc hg hstars =>
    intro fuel us s hends hs
    cases fuel with
    | zero => exact trivial
    | succ fuel =>
      have hname : NameSpelling [word] "id" := hid.2 ▸ .single hid.1
      unfold objcType
      refine finds_nameAndList hname hl (fun ts hts => ?_) hs
      rw [if_pos rfl]
      refine (finds_list hl hg (findsItems_protocols hitems) ?_ hts).bind fun ts' hts' => ?_
      · rw [List.map_map]
        exact hc
      rw [List.map_map]
      exact finds_starsBehind hstars hends hts'
  | @generic words inner behind less greater name arguments type found hname hne hl hled hitems
      hc hg hstars ih =>
    intro fuel us s hends hs
    cases fuel with
    | zero => exact trivial
    | succ fuel =>
      have hread : FindsItems (do
          let _ ← qualifiers
          return (← objcType fuel).1) (arguments.map fun a => (a.tokens, a.type)) :=
        findsItems_arguments hled hitems fun a ha => ih a ha fuel
      unfold objcType
      refine finds_nameAndList hname hl (fun ts hts => ?_) hs
      rw [if_neg hne]
      refine (finds_list hl hg hread ?_ hts).bind fun ts' hts' => ?_
      · rw [List.map_map]
        exact hc
      rw [List.map_map]
      exact finds_starsBehind hstars hends hts'

end Grammar

end HeaderBridge
