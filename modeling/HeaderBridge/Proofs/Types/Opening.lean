/-
  Behind an open spelling a double bracket is taken apart in any case: the list that may end there
  is the innermost one that is open, and it looks for its closing bracket before it does anything
  else. The proof goes along the spelling; the items in front of the bracket are found one by one.
-/
import HeaderBridge.Proofs.Types.Splitting

namespace HeaderBridge

open ReadState (kindOf Shifts Splits tracks_shifts)

namespace Rule

variable {α : Type} {s : ReadState}

/-- From this state the rule reads exactly some tokens, unless it breaks. -/
def ReadsExactly (r : Rule α) (front us : List Token) (s : ReadState) : Prop :=
  ∃ a, Ends True r s (fun b s' => b = a ∧ s' = s.past front us) fun _ _ => False

/-- A rule for items against a grammar of items, some of which are open at their end. -/
structure ReadsItems (item : Rule α) (whole opened : List Token → Prop) : Prop where
  exact : ∀ piece, whole piece → ∀ us (s : ReadState), s.speculating = true → EndsItem us →
    s.rest = piece ++ us → ReadsExactly item piece us s
  splits : ∀ piece, opened piece → ∀ d us (s : ReadState), s.speculating = true →
    d.kind = .shiftRight → s.rest = piece ++ d :: us → SplitsAt item s
  shifts : ∀ s : ReadState, s.speculating = true → ShiftsAt item s
  starts : ∀ piece, whole piece ∨ opened piece → kindOf piece = .identifier

/-- Right in front of a double bracket at most one item is left, which ends there or takes the
    bracket apart. -/
theorem ends_listItems_last {item : Rule α} {whole opened : List Token → Prop}
    (hitem : ReadsItems item whole opened) {tail us : List Token} {d : Token}
    (htail : tail = [] ∨ whole tail ∨ opened tail) (hd : d.kind = .shiftRight) (fuel : Nat)
    (due : Bool) (read : Array α) (hs : s.speculating = true) (hr : s.rest = tail ++ d :: us) :
    Ends True (listItems false .greater item (fuel + 1) due read) s
      (fun found s' => Splits s s' ∨
        (Shifts s s' ∧ found.2 = false ∧ s'.current = .shiftRight))
      fun _ s' => Splits s s' := by
  have hshifts := TracksAt.listItems tracks_shifts hitem.shifts fuel
  have hword : whole tail ∨ opened tail → s.current = .identifier := by
    intro h
    unfold ReadState.current
    rw [hr]
    exact kindOf_append_of_starts (hitem.starts tail h) _
  rcases htail with rfl | hwhole | hopened
  · have hc : s.current = .shiftRight := by
      unfold ReadState.current
      rw [hr]
      exact hd
    have hsplit : SplitsAt (listItems false .greater item (fuel + 1) due read) s := by
      unfold listItems
      refine (SplitsAt.splitCloser hc).bind fun _ s₁ h₁ => ?_
      exact TracksAt.listRound tracks_shifts hitem.shifts (hshifts true) due read
        (h₁.shifts.speculating.trans hs)
    exact hsplit.mono (fun _ _ h => Or.inl h) fun _ _ h => h
  · have hreads : s.Reads (s.past tail (d :: us)) := ⟨tail, d :: us, hr, rfl⟩
    obtain ⟨a, ha⟩ := hitem.exact tail hwhole (d :: us) s hs (Or.inr (Or.inr hd)) hr
    refine ends_listItems_item (hword (Or.inl hwhole)) (by decide)
      (ha.mono (fun b s₁ h₁ => ?_) fun _ _ h => h.elim)
    obtain ⟨rfl, rfl⟩ := h₁
    refine ends_bind.mpr (ends_state.mpr ?_)
    rw [ReadState.past_current, ReadState.kindOf_cons, hd, if_neg (by decide)]
    exact ends_pure.mpr (Or.inr ⟨hreads.shifts, rfl, hd⟩)
  · refine ends_listItems_item (hword (Or.inr hopened)) (by decide)
      ((hitem.splits tail hopened d us s hs hd hr).mono (fun a s₁ h₁ => ?_) fun _ _ h => h)
    have hstep := TracksAt.listStep tracks_shifts (read.push a)
      (hshifts true (read.push a)) (h₁.shifts.speculating.trans hs)
    exact hstep.mono (fun _ _ h => Or.inl (h₁.trans_left h)) fun _ _ h => h₁.trans_left h

/-- Where a list may end in front of a double bracket, its items end there, or they take the
    bracket apart. -/
theorem ends_listItems_open {item : Rule α} {whole opened : List Token → Prop}
    (hitem : ReadsItems item whole opened) {before tail : List Token}
    (hbefore : Leading whole before) (htail : tail = [] ∨ whole tail ∨ opened tail)
    {d : Token} (hd : d.kind = .shiftRight) (us : List Token) (fuel : Nat) :
    ∀ due read (s : ReadState), s.speculating = true → s.rest = before ++ (tail ++ d :: us) →
      Ends True (listItems false .greater item fuel due read) s
        (fun found s' => Splits s s' ∨
          (Shifts s s' ∧ found.2 = false ∧ s'.current = .shiftRight))
        fun _ s' => Splits s s' := by
  induction hbefore generalizing fuel with
  | none =>
    intro due read s hs hr
    cases fuel with
    | zero => exact trivial
    | succ fuel => exact ends_listItems_last hitem htail hd fuel due read hs hr
  | @more piece rest comma hpiece hk _ ih =>
    intro due read s hs hr
    cases fuel with
    | zero => exact trivial
    | succ fuel =>
      rw [List.append_assoc, List.cons_append] at hr
      have hc : s.current = .identifier := by
        unfold ReadState.current
        rw [hr]
        exact kindOf_append_of_starts (hitem.starts piece (Or.inl hpiece)) _
      obtain ⟨a, ha⟩ :=
        hitem.exact piece hpiece (comma :: (rest ++ (tail ++ d :: us))) s hs (Or.inl hk) hr
      refine ends_listItems_item hc (by decide) (ha.mono (fun b s₁ h₁ => ?_) fun _ _ h => h.elim)
      obtain ⟨rfl, rfl⟩ := h₁
      refine ends_bind.mpr (ends_state.mpr ?_)
      rw [ReadState.past_current, ReadState.kindOf_cons, if_pos hk]
      refine ends_bind.mpr (ends_advance.mpr ?_)
      rw [ReadState.advance_of_cons rfl, ReadState.past_past]
      have hreads : Shifts s (s.past (piece ++ [comma]) (rest ++ (tail ++ d :: us))) :=
        ReadState.Reads.shifts ⟨_, _, by rw [hr, List.append_assoc]; rfl, rfl⟩
      refine (ih fuel true (read.push b) (s.past (piece ++ [comma]) (rest ++ (tail ++ d :: us)))
        hs rfl).mono (fun found s₂ h₂ => ?_) fun _ _ h => Splits.trans_right hreads h
      rcases h₂ with h₂ | ⟨h₂, hlast⟩
      · exact Or.inl (.trans_right hreads h₂)
      · exact Or.inr ⟨hreads.trans h₂, hlast⟩

/-- A list that may end in front of a double bracket takes it apart. -/
theorem SplitsAt.list {item : Rule α} {whole opened : List Token → Prop}
    (hitem : ReadsItems item whole opened) {before tail us : List Token} {less d : Token}
    (hl : less.kind = .less) (hbefore : Leading whole before)
    (htail : tail = [] ∨ whole tail ∨ opened tail) (hd : d.kind = .shiftRight)
    (hs : s.speculating = true) (hr : s.rest = less :: (before ++ (tail ++ d :: us))) :
    SplitsAt (list false .less .greater item) s := by
  have hc : s.current = .less := by
    unfold ReadState.current
    rw [hr]
    exact hl
  unfold Rule.list delimiter SplitsAt
  refine ends_bind.mpr (ends_bind.mpr (ends_expect.mpr ⟨fun _ => ?_, fun h => absurd hc h⟩))
  rw [ReadState.advance_of_cons hr]
  refine ends_pure.mpr (ends_bind.mpr (ends_state.mpr ?_))
  have hreads : Shifts s (s.past [less] (before ++ (tail ++ d :: us))) :=
    ReadState.Reads.shifts ⟨_, _, hr, rfl⟩
  refine ends_bind.mpr ((ends_listItems_open hitem hbefore htail hd us _ false #[]
    (s.past [less] (before ++ (tail ++ d :: us))) hs rfl).mono (fun found s₁ h₁ => ?_)
      fun _ _ h => Splits.trans_right hreads h)
  rcases h₁ with h₁ | ⟨h₁, hdue, hc₁⟩
  · have hsplit := Splits.trans_right hreads h₁
    exact (TracksAt.listEnd tracks_shifts found (hsplit.shifts.speculating.trans hs)).mono
      (fun _ _ h => hsplit.trans_left h) fun _ _ h => hsplit.trans_left h
  · obtain ⟨items, due⟩ := found
    obtain rfl : due = false := hdue
    simp only [Bool.false_eq_true, if_false]
    have hclose : SplitsAt (do
        Rule.splitCloser .greater
        delimiter false .greater (.listClosing .greater)
        return items.toList) s₁ :=
      (SplitsAt.splitCloser hc₁).bind fun _ s₂ _ => TracksAt.closing tracks_shifts items s₂
    exact hclose.mono (fun _ _ h => Splits.trans_right hreads (Splits.trans_right h₁ h))
      fun _ _ h => Splits.trans_right hreads (Splits.trans_right h₁ h)

end Rule

namespace Grammar

open Rule

variable {s : ReadState}

theorem readsExactly_of_finds {α : Type} {r : Rule α} {front us : List Token} {a : α}
    (h : Finds r front us a s) (hs : ShiftsAt r s) (hr : s.rest = front ++ us) :
    ReadsExactly r front us s :=
  ⟨a, h.exact hs hr⟩

theorem halved_of_eq {ts us : List Token} (h : ts = us) : Halved ts us := by
  rw [h]
  exact Halved.refl us

/-! ## Items -/

theorem readsItems_protocols :
    ReadsItems (Ident.name <$> identifier .conformance) (ItemSpelling "id") fun _ => False := by
  refine ⟨fun piece hp us s _ _ hr => ?_, fun _ h => h.elim, fun s _ => ?_, fun piece hp => ?_⟩
  · obtain ⟨t, rfl, hk⟩ := hp
    exact readsExactly_of_finds
      ((Finds.identifier hk .conformance (halved_of_eq hr)).map Ident.name)
      ((ShiftsAt.identifier _ s).map _) hr
  · exact (ShiftsAt.identifier _ s).map _
  · rcases hp with ⟨t, rfl, hk⟩ | h
    · exact hk
    · exact h.elim

/-- The rule for an argument of a generic type. -/
theorem argument_shiftsAt (fuel : Nat) (s : ReadState) (hs : s.speculating = true) :
    ShiftsAt (do
      let _ ← qualifiers
      return (← objcType fuel).1) s :=
  (qualifiers_shiftsAt s).bind fun _ s₁ h₁ =>
    (objcType_shiftsAt fuel s₁ (h₁.speculating.trans hs)).map Prod.fst

theorem finds_argument {a : Argument} (hled : a.Led) (h : Spelling a.body a.type a.nullability)
    (fuel : Nat) {us : List Token} (hends : EndsItem us) (hs : Halved s.rest (a.tokens ++ us)) :
    Finds (do
      let _ ← qualifiers
      return (← objcType fuel).1) a.tokens us a.type s := by
  unfold Argument.tokens at hs ⊢
  rw [List.append_assoc] at hs
  refine (finds_qualifiers hled.qualify (h.free_append hled.free us) hs).bind fun ts hts => ?_
  exact (finds_objcType h fuel us _ (.of_endsItem hends) hts).map Prod.fst

theorem readsItems_arguments {name : String} (hname : name ≠ "id") {fuel : Nat}
    {opened : List Token → Prop}
    (hsplits : ∀ piece, opened piece → ∀ d us (s : ReadState), s.speculating = true →
      d.kind = .shiftRight → s.rest = piece ++ d :: us → SplitsAt (do
        let _ ← qualifiers
        return (← objcType fuel).1) s)
    (hstarts : ∀ piece, opened piece → kindOf piece = .identifier) :
    ReadsItems (do
      let _ ← qualifiers
      return (← objcType fuel).1) (ItemSpelling name) opened := by
  refine ⟨fun piece hp us s hs hends hr => ?_, hsplits, argument_shiftsAt fuel,
    fun piece hp => ?_⟩
  · unfold ItemSpelling at hp
    rw [if_neg hname] at hp
    obtain ⟨a, rfl, hled, hspelt⟩ := hp
    exact readsExactly_of_finds (finds_argument hled hspelt fuel hends (halved_of_eq hr))
      (argument_shiftsAt fuel s hs) hr
  · rcases hp with hp | hp
    · unfold ItemSpelling at hp
      rw [if_neg hname] at hp
      obtain ⟨a, rfl, hled, hspelt⟩ := hp
      exact Argument.starts hled hspelt
    · exact hstarts piece hp

/-! ## Types -/

/-- A type whose list may end in front of a double bracket takes it apart. -/
theorem objcType_splitsAt_of_list {words before tail us : List Token} {less d : Token}
    {name : String} {fuel : Nat} (hname : NameSpelling words name) (hl : less.kind = .less)
    (hbefore : Leading (ItemSpelling name) before) {opened : List Token → Prop}
    (htail : tail = [] ∨ ItemSpelling name tail ∨ opened tail)
    (hopened : ∀ piece, opened piece → name ≠ "id" ∧ kindOf piece = .identifier ∧
      ∀ d us (s : ReadState), s.speculating = true → d.kind = .shiftRight →
        s.rest = piece ++ d :: us → SplitsAt (do
          let _ ← qualifiers
          return (← objcType fuel).1) s)
    (hd : d.kind = .shiftRight) (hs : s.speculating = true)
    (hr : s.rest = words ++ (less :: (before ++ (tail ++ d :: us)))) :
    SplitsAt (objcType (fuel + 1)) s := by
  have hword : NoWord (less :: (before ++ (tail ++ d :: us))) :=
    .of_ne (by rw [ReadState.kindOf_cons, hl]; decide)
  have hbase := (finds_baseName hname hword (halved_of_eq hr)).exact (baseName_shiftsAt s) hr
  have hreads : Shifts s (s.past words (less :: (before ++ (tail ++ d :: us)))) :=
    ReadState.Reads.shifts ⟨_, _, hr, rfl⟩
  have last : ∀ type s₂, ShiftsAt (do
      let type ← pure type
      stars ((← state).weight + 1) type none) s₂ := fun type s₂ =>
    (ShiftsAt.pure type s₂).bind fun type s₃ _ => .state (stars_shiftsAt _ type none s₃)
  unfold objcType SplitsAt
  refine ends_bind.mpr (hbase.mono (fun found s₁ h₁ => ?_) fun _ _ h => h.elim)
  obtain ⟨rfl, rfl⟩ := h₁
  refine ends_bind.mpr (ends_state.mpr ?_)
  rw [ReadState.past_current, ReadState.kindOf_cons, if_pos hl]
  split
  · next hid =>
    subst hid
    have htail' : tail = [] ∨ ItemSpelling "id" tail ∨ False := by
      rcases htail with h | h | h
      · exact Or.inl h
      · exact Or.inr (Or.inl h)
      · exact absurd rfl (hopened tail h).1
    have hlist : SplitsAt (list false .less .greater (Ident.name <$> identifier .conformance))
        (s.past words (less :: (before ++ (tail ++ d :: us)))) :=
      SplitsAt.list readsItems_protocols hl hbefore htail' hd hs rfl
    exact (hlist.bind fun _ s₂ _ => last _ s₂).mono
      (fun _ _ h => Splits.trans_right hreads h) fun _ _ h => Splits.trans_right hreads h
  · next hid =>
    have hitems := readsItems_arguments hid (fun piece h => (hopened piece h).2.2)
      fun piece h => (hopened piece h).2.1
    have hlist : SplitsAt (list false .less .greater (do
        let _ ← qualifiers
        return (← objcType fuel).1)) (s.past words (less :: (before ++ (tail ++ d :: us)))) :=
      SplitsAt.list hitems hl hbefore htail hd hs rfl
    exact (hlist.bind fun _ s₂ _ => last _ s₂).mono
      (fun _ _ h => Splits.trans_right hreads h) fun _ _ h => Splits.trans_right hreads h

theorem OpenSpelling.starts {inner : List Token} (h : OpenSpelling inner) (us : List Token) :
    kindOf (inner ++ us) = .identifier := by
  cases h with
  | between hname =>
    rw [List.append_assoc]
    exact hname.starts _
  | behind hname =>
    rw [List.append_assoc]
    exact hname.starts _
  | inside hname =>
    rw [List.append_assoc]
    exact hname.starts _

theorem startsWithQualifier_append {inner : List Token} (h : startsWithQualifier inner = false)
    (hstart : kindOf inner = .identifier) (us : List Token) :
    startsWithQualifier (inner ++ us) = false := by
  cases inner with
  | nil => cases hstart
  | cons t inner => exact h

/-- Behind an open spelling a double bracket is taken apart. -/
theorem objcType_splitsAt {inner : List Token} (h : OpenSpelling inner) :
    ∀ (fuel : Nat) (d : Token) (us : List Token) (s : ReadState), d.kind = .shiftRight →
      s.speculating = true → s.rest = inner ++ d :: us → SplitsAt (objcType fuel) s := by
  induction h with
  | @between words before less name hname hl hbefore =>
    intro fuel d us s hd hs hr
    cases fuel with
    | zero => exact trivial
    | succ fuel =>
      have hr' : s.rest = words ++ (less :: (before ++ ([] ++ d :: us))) := by simpa using hr
      exact objcType_splitsAt_of_list hname hl hbefore (Or.inl rfl)
        (fun _ (h : False) => h.elim) hd hs hr'
  | @behind words before tail less name hname hl hbefore hitem =>
    intro fuel d us s hd hs hr
    cases fuel with
    | zero => exact trivial
    | succ fuel =>
      have hr' : s.rest = words ++ (less :: (before ++ (tail ++ d :: us))) := by simpa using hr
      exact objcType_splitsAt_of_list hname hl hbefore (Or.inr (Or.inl hitem))
        (fun _ (h : False) => h.elim) hd hs hr'
  | @inside words before quals inner less name hname hne hl hbefore hq hfree hdeeper ih =>
    intro fuel d us s hd hs hr
    cases fuel with
    | zero => exact trivial
    | succ fuel =>
      have hstart : kindOf inner = .identifier := by
        have := hdeeper.starts []
        rwa [List.append_nil] at this
      have hopened : ∀ piece, piece = quals ++ inner → name ≠ "id" ∧ kindOf piece = .identifier ∧
          ∀ d us (s : ReadState), s.speculating = true → d.kind = .shiftRight →
            s.rest = piece ++ d :: us → SplitsAt (do
              let _ ← qualifiers
              return (← objcType fuel).1) s := by
        rintro piece rfl
        refine ⟨hne, ?_, fun d us s hs hd hr => ?_⟩
        · cases quals with
          | nil => exact hstart
          | cons q quals => exact (hq q List.mem_cons_self).kind
        · rw [List.append_assoc] at hr
          have hquals := (finds_qualifiers hq (startsWithQualifier_append hfree hstart _)
            (halved_of_eq hr)).exact (qualifiers_shiftsAt s) hr
          have hreads : Shifts s (s.past quals (inner ++ d :: us)) :=
            ReadState.Reads.shifts ⟨_, _, hr, rfl⟩
          refine ends_bind.mpr (hquals.mono (fun _ s₁ h₁ => ?_) fun _ _ h => h.elim)
          obtain ⟨_, rfl⟩ := h₁
          refine ends_bind.mpr ((ih fuel d us (s.past quals (inner ++ d :: us)) hd hs rfl).mono
            (fun _ _ h => ?_) fun _ _ h => ?_)
          · exact ends_pure.mpr (Splits.trans_right hreads h)
          · exact Splits.trans_right hreads h
      have hr' : s.rest = words ++ (less :: (before ++ ((quals ++ inner) ++ d :: us))) := by
        simpa using hr
      refine objcType_splitsAt_of_list hname hl hbefore ?_ hopened hd hs hr'
      exact Or.inr (Or.inr rfl)

end Grammar

end HeaderBridge
