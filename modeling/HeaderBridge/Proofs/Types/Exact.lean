/-
  What the rules for types read in a speculation is a spelling of the type that they come to,
  whether brackets are taken apart on the way or not. Where no double bracket stands behind an open
  spelling, they do nothing but read: so they take no bracket apart without need.
-/
import HeaderBridge.Proofs.Reading.Taking
import HeaderBridge.Proofs.Types.Opening

namespace HeaderBridge

open ReadState (kindOf HasRead)

theorem exists_map_of_forall {α β : Type} {f : β → α} {p : β → Prop} {as : List α}
    (h : ∀ a ∈ as, ∃ b, a = f b ∧ p b) : ∃ bs : List β, as = bs.map f ∧ ∀ b ∈ bs, p b := by
  induction as with
  | nil => exact ⟨[], rfl, fun _ h => by cases h⟩
  | cons a as ih =>
    obtain ⟨⟨b, rfl, hb⟩, has⟩ := List.forall_mem_cons.mp h
    obtain ⟨bs, rfl, hbs⟩ := ih has
    exact ⟨b :: bs, rfl, List.forall_mem_cons.mpr ⟨hb, hbs⟩⟩

namespace Rule

variable {α : Type} {R : ReadState → List Token → ReadState → Prop} {s : ReadState}

/-- The front of a list up to a place where it may end. -/
def OpenItems (whole : List Token → Prop) (opened : List Token → Prop) (ts : List Token) : Prop :=
  ∃ before tail, ts = before ++ tail ∧ Leading whole before ∧
    (tail = [] ∨ whole tail ∨ opened tail)

namespace OpenItems

variable {whole whole' opened : List Token → Prop} {ts piece : List Token}

theorem mono (h : OpenItems whole opened ts) (hw : ∀ piece, whole piece → whole' piece) :
    OpenItems whole' opened ts := by
  obtain ⟨before, tail, rfl, hbefore, htail⟩ := h
  refine ⟨before, tail, rfl, ?_, htail.imp_right (Or.imp_left (hw tail))⟩
  induction hbefore with
  | none => exact .none
  | more hpiece hk _ ih => exact .more (hw _ hpiece) hk ih

theorem nil : OpenItems whole opened [] := ⟨[], [], rfl, .none, Or.inl rfl⟩

theorem item (h : whole piece) : OpenItems whole opened piece :=
  ⟨[], piece, rfl, .none, Or.inr (Or.inl h)⟩

theorem inside (h : opened piece) : OpenItems whole opened piece :=
  ⟨[], piece, rfl, .none, Or.inr (Or.inr h)⟩

theorem more {comma : Token} (h : whole piece) (hk : comma.kind = .comma)
    (hts : OpenItems whole opened ts) : OpenItems whole opened (piece ++ [comma] ++ ts) := by
  obtain ⟨before, tail, rfl, hbefore, htail⟩ := hts
  exact ⟨piece ++ comma :: before, tail, by simp, .more h hk hbefore, htail⟩

end OpenItems

/-- The items of a list up to a place where it may end. -/
theorem writesAt_listItems (hR : TakesTokens R) {item : Rule α}
    {whole : List Token → α → Prop} {opened : List Token → Prop}
    (hitem : ∀ s : ReadState, s.speculating = true → Mends R opened s → WritesAt R item whole s)
    (fuel : Nat) :
    ∀ (due : Bool) (read : Array α) (s : ReadState), s.speculating = true →
      Mends R (OpenItems (fun ts => ∃ a, whole ts a) opened) s →
      WritesAt R (listItems false .greater item fuel due read) (fun inner found =>
        OpenItems (fun ts => ∃ a, whole ts a) opened inner ∧
          ∃ pieces : List (List Token × α), (∀ p ∈ pieces, whole p.1 p.2) ∧ (found.2 = false →
            Commas (pieces.map Prod.fst) inner ∧ (due = true → pieces ≠ []) ∧
              found.1 = read ++ (pieces.map Prod.snd).toArray)) s := by
  induction fuel with
  | zero =>
    intro _ _ s _ _
    exact trivial
  | succ fuel ih =>
    intro due read s hs hm
    have hrefl : R s [] s := hR.of_read (.refl s)
    unfold listItems WritesAt
    refine ends_bind.mpr ((writesAt_splitCloser hR hm .nil hrefl).mono (fun _ s₀ h₀ => ?_)
      fun _ _ h => h.elim)
    have hs₀ := (hR.speculating h₀).trans hs
    refine ends_bind.mpr (ends_state.mpr (ends_ite.mpr ⟨fun _ => ?_, fun _ => ?_⟩))
    · refine ends_pure.mpr ⟨[], h₀, .nil, [], List.forall_mem_nil _, fun hdue => ?_⟩
      refine ⟨.none, fun h => ?_, by simp⟩
      rw [h] at hdue
      cases hdue
    · have hm₀ : Mends R opened s₀ := hm.behind hR h₀ fun piece _ _ h => .inside h
      refine ends_bind.mpr ((hitem s₀ hs₀ hm₀).mono (fun a s₁ h₁ => ?_)
        fun _ _ h => hR.exists_trans h₀ h)
      obtain ⟨piece, hread₁, hwhole⟩ := h₁
      have hread : R s piece s₁ := hR.trans h₀ hread₁
      refine ends_bind.mpr (ends_state.mpr (ends_ite.mpr ⟨fun hcomma => ?_, fun _ => ?_⟩))
      · obtain ⟨comma, hk, hread'⟩ := HasRead.exists_advance hcomma (by decide)
        have hboth := hR.trans hread (hR.of_read hread')
        have hm₁ : Mends R (OpenItems (fun ts => ∃ a, whole ts a) opened) s₁.advance :=
          hm.behind hR hboth fun ts _ _ h => .more ⟨a, hwhole⟩ hk h
        refine ends_bind.mpr (ends_advance.mpr ?_)
        refine (ih true (read.push a) s₁.advance ((hR.speculating hboth).trans hs) hm₁).mono
          (fun found s₂ h₂ => ?_) fun _ _ h => hR.exists_trans hboth h
        obtain ⟨inner, hread₂, hopen, pieces, hall, hfound⟩ := h₂
        refine ⟨_, hR.trans hboth hread₂, .more ⟨a, hwhole⟩ hk hopen, (piece, a) :: pieces,
          List.forall_mem_cons.mpr ⟨hwhole, hall⟩, fun hdue => ?_⟩
        obtain ⟨hcommas, hne, hvalues⟩ := hfound hdue
        refine ⟨?_, fun _ => List.cons_ne_nil _ _, ?_⟩
        · cases pieces with
          | nil => exact absurd rfl (hne rfl)
          | cons p pieces =>
            rw [List.append_assoc]
            exact .more piece p.1 hk hcommas
        · rw [hvalues]
          simp
      · refine ends_pure.mpr ⟨piece, hread, .item ⟨a, hwhole⟩, [(piece, a)],
          by simpa using hwhole, fun _ => ?_⟩
        exact ⟨.one piece, fun _ => List.cons_ne_nil _ _, by simp⟩

/-- A list in angle brackets. -/
theorem writesAt_list (hR : TakesTokens R) {item : Rule α} {whole : List Token → α → Prop}
    {opened : List Token → Prop}
    (hitem : ∀ s : ReadState, s.speculating = true → Mends R opened s → WritesAt R item whole s)
    (hs : s.speculating = true)
    (hm : ∀ less s₁, less.kind = .less → R s [less] s₁ →
      Mends R (OpenItems (fun ts => ∃ a, whole ts a) opened) s₁) :
    WritesAt R (list false .less .greater item) (fun front values =>
      ∃ (less greater : Token) (pieces : List (List Token × α)) (inner : List Token),
        front = less :: (inner ++ [greater]) ∧ less.kind = .less ∧ greater.kind = .greater ∧
        (∀ p ∈ pieces, whole p.1 p.2) ∧ Commas (pieces.map Prod.fst) inner ∧
        values = pieces.map Prod.snd) s := by
  have hrefl : R s [] s := hR.of_read (.refl s)
  unfold list delimiter WritesAt
  refine ends_bind.mpr (ends_bind.mpr (ends_expect.mpr ⟨fun hc => ?_, fun _ => ⟨[], hrefl⟩⟩))
  obtain ⟨less, hl, hadvance⟩ := HasRead.exists_advance hc (by decide)
  have hread := hR.of_read hadvance
  have hs₁ := (hR.speculating hread).trans hs
  have hm₁ := hm less s.advance hl hread
  refine ends_pure.mpr (ends_bind.mpr (ends_state.mpr ?_))
  refine ends_bind.mpr ((writesAt_listItems hR hitem _ false #[] s.advance hs₁ hm₁).mono
    (fun found s₁ h₁ => ?_) fun _ _ h => hR.exists_trans hread h)
  obtain ⟨inner, hread₁, hopen, pieces, hall, hfound⟩ := h₁
  have hboth := hR.trans hread hread₁
  obtain ⟨items, due⟩ := found
  cases due with
  | true =>
    refine ends_ite.mpr ⟨fun _ => ?_, fun h => absurd rfl h⟩
    refine ends_bind.mpr (ends_state.mpr (ends_ite.mpr ⟨fun _ => ?_, fun h => ?_⟩))
    · exact ends_bind.mpr (ends_failHere.mpr ⟨_, hboth⟩)
    · exact absurd ((hR.speculating hboth).trans hs) h
  | false =>
    obtain ⟨hcommas, _, hvalues⟩ := hfound rfl
    simp only [Bool.false_eq_true, if_false]
    refine ends_bind.mpr ((writesAt_splitCloser hR hm₁ hopen hread₁).mono (fun _ s₂ h₂ => ?_)
      fun _ _ h => h.elim)
    have hall₂ := hR.trans hread h₂
    refine ends_bind.mpr (ends_bind.mpr (ends_expect.mpr ⟨fun hg => ?_, fun _ => ⟨_, hall₂⟩⟩))
    obtain ⟨greater, hk, hread₃⟩ := HasRead.exists_advance hg (by decide)
    refine ends_pure.mpr (ends_pure.mpr ⟨_, hR.trans hall₂ (hR.of_read hread₃), less, greater,
      pieces, inner, rfl, hl, hk, hall, hcommas, ?_⟩)
    rw [show items = #[] ++ (pieces.map Prod.snd).toArray from hvalues]
    simp

end Rule

namespace Grammar

open Rule

variable {R : ReadState → List Token → ReadState → Prop} {s : ReadState}

/-! ## Parts of types -/

theorem ends_qualifiers_exact (s : ReadState) :
    Ends True qualifiers s (fun found s' => ∃ quals, HasRead s quals s' ∧
      (∀ q ∈ quals, Qualifies q) ∧ found = lastNullability quals ∧
      startsWithQualifier s'.rest = false) fun _ _ => False := by
  obtain ⟨front, rest, hr, he, hfront, hrest⟩ :=
    ReadState.Reads.readWhile_spec startsWithQualifier s
  unfold qualifiers
  simp only [ends_bind, ends_state, ends_modify, ends_pure]
  refine ⟨front, ⟨rest, hr, he⟩, fun q hq => ?_, ?_, ?_⟩
  · obtain ⟨before, after, rfl⟩ := List.append_of_mem hq
    exact hfront before q after rfl
  · rw [he, ReadState.past_position, Nat.add_sub_cancel, hr, List.take_left]
  · rw [he, ReadState.past_rest]
    rcases hrest with rfl | h
    · rfl
    · exact h

/-- The words that go on a name are found in front of the tokens. -/
theorem exists_nameTail (last : String) (ts : List Token) :
    ∃ more rest, ts = more ++ rest ∧ NameTail last more ∧
      nameWords last ts = more.map (·.text) := by
  induction ts generalizing last with
  | nil => exact ⟨[], [], rfl, trivial, rfl⟩
  | cons t ts ih =>
    unfold nameWords
    split
    · next hc =>
      simp only [Bool.and_eq_true, beq_iff_eq, List.contains_eq_mem, decide_eq_true_iff] at hc
      obtain ⟨more, rest, rfl, htail, hwords⟩ := ih t.text
      exact ⟨t :: more, rest, rfl, ⟨hc.1.1, hc.1.2, hc.2, htail⟩, by rw [hwords]; rfl⟩
    · exact ⟨[], t :: ts, rfl, trivial, rfl⟩

theorem baseName_writesAt (s : ReadState) : WritesAt HasRead baseName NameSpelling s := by
  unfold baseName WritesAt
  refine ends_bind.mpr (ends_identifier.mpr ⟨fun hc => ?_, fun _ => ⟨[], .refl s⟩⟩)
  obtain ⟨first, rest, hr, hk⟩ := ReadState.exists_cons_of_current hc (by decide)
  obtain ⟨more, rest', rfl, htail, hwords⟩ := exists_nameTail first.text rest
  rw [ReadState.currentText_of_cons hr, ReadState.advance_of_cons hr]
  refine ends_bind.mpr (ends_state.mpr ?_)
  simp only [ReadState.past_rest, hwords]
  refine ends_bind.mpr (ends_modify.mpr (ends_pure.mpr ?_))
  rw [foldl_advance rfl (List.length_map _), ReadState.past_past]
  exact ⟨_, ⟨rest', hr, rfl⟩, .words hk htail⟩

theorem stars_writesAt (fuel : Nat) :
    ∀ type found (s : ReadState),
      Ends True (stars fuel type found) s
        (fun v s' => ∃ front, HasRead s front s' ∧ Stars type found front v.1 v.2)
        fun _ _ => False := by
  induction fuel with
  | zero =>
    intro _ _ s
    exact trivial
  | succ fuel ih =>
    intro type found s
    unfold stars
    refine ends_bind.mpr (ends_eat.mpr ⟨fun hc => ?_, fun _ => ?_⟩)
    · obtain ⟨star, hk, hread⟩ := HasRead.exists_advance hc (by decide)
      rw [if_pos rfl]
      refine ends_bind.mpr ((ends_qualifiers_exact s.advance).mono (fun behind s₁ h₁ => ?_)
        fun _ _ h => h)
      obtain ⟨quals, hread₁, hq, rfl, _⟩ := h₁
      refine (ih _ _ s₁).mono (fun v s₂ h₂ => ?_) fun _ _ h => h
      obtain ⟨front, hread₂, hstars⟩ := h₂
      refine ⟨_, (hread.trans hread₁).trans hread₂, ?_⟩
      rw [List.append_assoc]
      show Stars type found (star :: (quals ++ front)) v.1 v.2
      exact .star hk hq hstars
    · exact ends_pure.mpr ⟨[], .refl s, .none type found⟩

/-! ## Types -/

/-- The stars behind a type whose other tokens were read. -/
theorem ends_starsBehind (hR : TakesTokens R) {front : List Token} {type : ObjcType}
    {s₁ : ReadState} (hread : R s front s₁)
    {written : List Token → ObjcType × Option Nullability → Prop}
    (hw : ∀ behind v, Stars type none behind v.1 v.2 → written (front ++ behind) v) :
    Ends True (do
        let type ← (pure type : Rule ObjcType)
        stars ((← state).weight + 1) type none) s₁
      (fun v s' => ∃ front, R s front s' ∧ written front v) fun _ s' => ∃ front, R s front s' := by
  refine ends_bind.mpr (ends_pure.mpr (ends_bind.mpr (ends_state.mpr ?_)))
  refine (stars_writesAt _ type none s₁).mono (fun v s₂ h₂ => ?_) fun _ _ h => h.elim
  obtain ⟨behind, hread₂, hstars⟩ := h₂
  exact ⟨_, hR.trans hread (hR.of_read hread₂), hw behind v hstars⟩

theorem append_protocols {front words inner stars : List Token} {less greater : Token}
    (hf : front = words ++ (less :: (inner ++ [greater]))) :
    front ++ stars = words ++ less :: (inner ++ greater :: stars) := by
  rw [hf]
  simp

/-- The open items of a list behind a name make an open spelling. -/
theorem openSpelling_of_openItems {words ts : List Token} {less : Token} {name : String}
    (hname : NameSpelling words name) (hl : less.kind = .less) {opened : List Token → Prop}
    (hopened : ∀ piece, opened piece → name ≠ "id" ∧ ∃ quals inner, piece = quals ++ inner ∧
      (∀ q ∈ quals, Qualifies q) ∧ startsWithQualifier inner = false ∧ OpenSpelling inner)
    (h : OpenItems (ItemSpelling name) opened ts) : OpenSpelling (words ++ less :: ts) := by
  obtain ⟨before, tail, rfl, hbefore, htail⟩ := h
  rcases htail with rfl | htail | htail
  · rw [List.append_nil]
    exact .between hname hl hbefore
  · exact .behind hname hl hbefore htail
  · obtain ⟨hne, quals, inner, rfl, hq, hfree, hinner⟩ := hopened tail htail
    exact .inside hname hne hl hbefore hq hfree hinner

/-- An open argument: qualifiers in front of an open type. -/
def OpenArgument (piece : List Token) : Prop :=
  ∃ quals inner, piece = quals ++ inner ∧ (∀ q ∈ quals, Qualifies q) ∧
    startsWithQualifier inner = false ∧ OpenSpelling inner

/-- What a protocol in the list behind `id` is read from. -/
def ProtocolSpelling (piece : List Token) (name : String) : Prop :=
  ∃ t, piece = [t] ∧ t.kind = .identifier ∧ name = t.text

theorem protocol_writesAt (hR : TakesTokens R) (s : ReadState) :
    WritesAt R (Ident.name <$> identifier .conformance) ProtocolSpelling s := by
  refine ends_map.mpr (ends_identifier.mpr ⟨fun hc => ?_, fun _ => ⟨[], hR.of_read (.refl s)⟩⟩)
  obtain ⟨t, rest, hr, hk⟩ := ReadState.exists_cons_of_current hc (by decide)
  exact ⟨[t], hR.of_read (.advance hr), t, rfl, hk, ReadState.currentText_of_cons hr⟩

/-- What an argument of a generic type is read from. -/
def ArgumentSpelling (piece : List Token) (type : ObjcType) : Prop :=
  ∃ a : Argument, piece = a.tokens ∧ type = a.type ∧ a.Led ∧
    Spelling a.body a.type a.nullability

theorem exists_names {pieces : List (List Token × String)}
    (h : ∀ p ∈ pieces, ProtocolSpelling p.1 p.2) : ∃ names : List Token,
      pieces = names.map (fun t => ([t], t.text)) ∧ ∀ t ∈ names, t.kind = .identifier := by
  refine exists_map_of_forall fun p hp => ?_
  obtain ⟨t, hpiece, hk, hvalue⟩ := h p hp
  exact ⟨t, Prod.ext hpiece hvalue, hk⟩

theorem exists_arguments {pieces : List (List Token × ObjcType)}
    (h : ∀ p ∈ pieces, ArgumentSpelling p.1 p.2) : ∃ arguments : List Argument,
      pieces = arguments.map (fun a => (a.tokens, a.type)) ∧
        ∀ a ∈ arguments, a.Led ∧ Spelling a.body a.type a.nullability := by
  refine exists_map_of_forall fun p hp => ?_
  obtain ⟨a, hpiece, hvalue, ha⟩ := h p hp
  exact ⟨a, Prod.ext hpiece hvalue, ha⟩

theorem startsWithQualifier_of_append {front us : List Token}
    (h : startsWithQualifier (front ++ us) = false) : startsWithQualifier front = false := by
  cases front with
  | nil => rfl
  | cons t front => exact h

/-- The name `id` is a single word. -/
theorem exists_idToken {words : List Token} (h : NameSpelling words "id") :
    ∃ word, words = [word] ∧ word.kind = .identifier ∧ word.text = "id" := by
  generalize hid : "id" = name at h
  cases h with
  | @words first more hk htail =>
    cases more with
    | nil => exact ⟨first, rfl, hk, String.intercalate_singleton.symm⟩
    | cons second more =>
      -- A name of several words has a blank in it.
      have hblank : ' ' ∈ "id".toList := by
        rw [hid, List.map_cons, String.intercalate_cons_cons]
        simp
      exact absurd hblank (by decide)

/-- What is read in front of tokens without a qualifier does not start with one. -/
theorem startsWithQualifier_of_takes (hR : TakesTokens R) {front : List Token} {s' : ReadState}
    (h : R s front s') (hfree : startsWithQualifier s.rest = false) :
    startsWithQualifier front = false := by
  cases front with
  | nil => rfl
  | cons t front =>
    have hrow := hR.halved h
    rw [List.cons_append] at hrow
    generalize s.rest = ts, front ++ s'.rest = us at hrow hfree
    cases hrow with
    | keep _ _ => exact hfree
    | halve hv _ => exact startsWithQualifier_of_ne (by rw [hv.first_kind]; decide)

theorem argument_writesAt (hR : TakesTokens R) {fuel : Nat}
    (ih : ∀ s : ReadState, s.speculating = true → Mends R OpenSpelling s →
      WritesAt R (objcType fuel) (fun front v => Spelling front v.1 v.2) s)
    (hs : s.speculating = true) (hm : Mends R OpenArgument s) : WritesAt R (do
      let _ ← qualifiers
      return (← objcType fuel).1) ArgumentSpelling s := by
  refine ends_bind.mpr ((ends_qualifiers_exact s).mono (fun _ s₁ h₁ => ?_) fun _ _ h => h.elim)
  obtain ⟨quals, hquals, hq, _, hfree⟩ := h₁
  have hread := hR.of_read hquals
  have hm₁ : Mends R OpenSpelling s₁ := hm.behind hR hread fun inner _ hinner h =>
    ⟨quals, inner, rfl, hq, startsWithQualifier_of_takes hR hinner hfree, h⟩
  refine ends_bind.mpr ((ih s₁ ((hR.speculating hread).trans hs) hm₁).mono (fun v s₂ h₂ => ?_)
    fun _ _ h => hR.exists_trans hread h)
  obtain ⟨body, hread₂, hspelt⟩ := h₂
  exact ends_pure.mpr ⟨_, hR.trans hread hread₂, ⟨quals, body, v.1, v.2⟩, rfl, rfl,
    ⟨hq, startsWithQualifier_of_takes hR hread₂ hfree⟩, hspelt⟩

theorem openItems_of_protocols {ts : List Token}
    (h : OpenItems (fun ts => ∃ a, ProtocolSpelling ts a) (fun _ => False) ts) :
    OpenItems (ItemSpelling "id") (fun _ => False) ts :=
  h.mono fun _ ⟨_, t, hpiece, hk, _⟩ => ⟨t, hpiece, hk⟩

theorem openItems_of_arguments {name : String} {ts : List Token} (hid : name ≠ "id")
    (h : OpenItems (fun ts => ∃ a, ArgumentSpelling ts a) OpenArgument ts) :
    OpenItems (ItemSpelling name) OpenArgument ts := by
  refine h.mono fun piece ⟨_, a, hpiece, _, hled, hspelt⟩ => ?_
  unfold ItemSpelling
  rw [if_neg hid]
  exact ⟨a, hpiece, hled, hspelt⟩

/-- A type is read from a spelling, if brackets may be taken apart behind an open one. -/
theorem objcType_writesAt (hR : TakesTokens R) (fuel : Nat) :
    ∀ s : ReadState, s.speculating = true → Mends R OpenSpelling s →
      WritesAt R (objcType fuel) (fun front v => Spelling front v.1 v.2) s := by
  induction fuel with
  | zero =>
    intro s _ _
    exact trivial
  | succ fuel ih =>
    intro s hs hm
    unfold objcType WritesAt
    refine ends_bind.mpr ((baseName_writesAt s).mono (fun name s₁ h₁ => ?_)
      fun _ _ h => h.imp fun _ h => hR.of_read h)
    obtain ⟨words, hwords, hname⟩ := h₁
    have hread := hR.of_read hwords
    have hs₁ := (hR.speculating hread).trans hs
    have hitems : ∀ (opened : List Token → Prop), (∀ piece, opened piece → name ≠ "id" ∧
        OpenArgument piece) → ∀ less s₂, less.kind = .less → R s₁ [less] s₂ →
        Mends R (OpenItems (ItemSpelling name) opened) s₂ := by
      intro opened hopened less s₂ hl hless
      refine hm.behind hR (hR.trans hread hless) fun ts _ _ hts => ?_
      rw [List.append_assoc]
      exact openSpelling_of_openItems hname hl hopened hts
    refine ends_bind.mpr (ends_state.mpr (ends_ite.mpr ⟨fun _ => ?_, fun _ => ?_⟩))
    · refine ends_ite.mpr ⟨fun hid => ?_, fun hid => ?_⟩
      · subst hid
        have hm₁ : ∀ less s₂, less.kind = .less → R s₁ [less] s₂ →
            Mends R (OpenItems (fun ts => ∃ a, ProtocolSpelling ts a) fun _ => False) s₂ :=
          fun less s₂ hl hless => (hitems (fun _ => False) (fun _ h => h.elim) less s₂ hl hless).mono
            fun _ => openItems_of_protocols
        refine ends_bind.mpr ((writesAt_list hR (fun s' _ _ => protocol_writesAt hR s') hs₁
          hm₁).mono (fun values s₂ h₂ => ?_) fun _ _ h => hR.exists_trans hread h)
        obtain ⟨front, hread₂, less, greater, pieces, inner, rfl, hl, hg, hall, hcommas, rfl⟩ := h₂
        obtain ⟨names, rfl, hnames⟩ := exists_names hall
        rw [List.map_map] at hcommas
        refine ends_starsBehind hR (hR.trans hread hread₂) fun behind v hstars => ?_
        obtain ⟨word, rfl, hid⟩ := exists_idToken hname
        rw [append_protocols rfl]
        rw [List.map_map] at hstars
        exact .protocols hid hl hnames hcommas hg hstars
      · have hm₁ : ∀ less s₂, less.kind = .less → R s₁ [less] s₂ →
            Mends R (OpenItems (fun ts => ∃ a, ArgumentSpelling ts a) OpenArgument) s₂ :=
          fun less s₂ hl hless => (hitems OpenArgument (fun _ h => ⟨hid, h⟩) less s₂ hl hless).mono
            fun _ => openItems_of_arguments hid
        refine ends_bind.mpr ((writesAt_list hR (fun s' hs' hm' => argument_writesAt hR ih hs' hm')
          hs₁ hm₁).mono (fun values s₂ h₂ => ?_) fun _ _ h => hR.exists_trans hread h)
        obtain ⟨front, hread₂, less, greater, pieces, inner, rfl, hl, hg, hall, hcommas, rfl⟩ := h₂
        obtain ⟨arguments, rfl, harguments⟩ := exists_arguments hall
        rw [List.map_map] at hcommas
        refine ends_starsBehind hR (hR.trans hread hread₂) fun behind v hstars => ?_
        rw [append_protocols rfl]
        rw [List.map_map] at hstars
        exact .generic hname hid hl (fun a ha => (harguments a ha).1)
          (fun a ha => (harguments a ha).2) hcommas hg hstars
    · refine ends_starsBehind hR hread fun behind v hstars => ?_
      exact .plain hname hstars

end Grammar

end HeaderBridge
