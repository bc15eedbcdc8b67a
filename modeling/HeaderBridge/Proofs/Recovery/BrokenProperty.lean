/-
  A property that is broken costs one error, as long as nothing is left of it that another member
  could be made of (`read_with_broken_property`). What is left may be a sign, at which the skipping
  of a broken member ends (`exists_broken_property_two_errors`), or what stands behind a word in a
  broken type: the word is taken for the name of the property whatever follows it (`LeavesWord`).
-/
import HeaderBridge.Proofs.Recovery.Inside
import HeaderBridge.Proofs.Recovery.UnknownMember

namespace HeaderBridge

open ReadState (kindOf)
open Bare (bare)
open Rule

namespace Grammar

/-! ## Broken types -/

/-- The tokens at which the skipping of a broken type ends. -/
def endsType (kind : TokenKind) : Bool :=
  kind == .identifier || kind == .semicolon || isMemberSync kind

/-- Whether a type breaks off and leaves a word that the semicolon does not follow. -/
def typeLeavesWord : Rule Bool := do
  let type ← recover typeName endsType
  let s ← state
  return type.isInvalid && s.current == .identifier && s.second != .semicolon

/-- The same behind the modifiers of a property. -/
def leavesWord : Rule Bool := do
  if (← state).current = .leftParen then modifierList
  typeLeavesWord

/-- A type that is looked for in the row breaks off and leaves a word that the semicolon does not
    follow. -/
def LeavesWord (row : List Token) : Prop :=
  ∃ s t : ReadState, s.rest = row ∧ s.speculating = false ∧ leavesWord s = .done true t

/-! ## The end of a broken member -/

/-- What is left is the row, at the cost of one error at most. -/
structure Remains (row : List Token) (base s : ReadState) : Prop where
  rest : s.rest = row
  errors : ∃ es, s.errors.toList = base.errors.toList ++ es ∧ es.length ≤ 1
  speculating : s.speculating = base.speculating
  inOptional : s.inOptional = base.inOptional

variable {semi : Token} {back : List Token} {base s : ReadState}

/-- A word was taken out of the run for a name, and what stands behind it is left, at the cost of
    one error. -/
structure Strays (semi : Token) (back : List Token) (base s : ReadState) : Prop where
  rest : ∃ x left, s.rest = x :: left ++ semi :: back ∧ ∀ t ∈ x :: left, Plain t
  errors : ∃ e, s.errors.toList = base.errors.toList ++ [e]
  speculating : s.speculating = base.speculating
  inOptional : s.inOptional = base.inOptional

theorem exists_errors_report (s : ReadState) (e : SyntaxError) :
    ∃ es, (s.report e).errors.toList = s.errors.toList ++ es ∧ es.length ≤ 1 := by
  unfold ReadState.report
  split
  · exact ⟨[], by simp, by simp⟩
  · exact ⟨[_], Array.toList_push, Nat.le_refl 1⟩

/-- Noting an error touches nothing else that is asked for here. -/
theorem report_fields (s : ReadState) (e : SyntaxError) : (s.report e).rest = s.rest ∧
    (s.report e).speculating = s.speculating ∧ (s.report e).inOptional = s.inOptional := by
  unfold ReadState.report
  split <;> exact ⟨rfl, rfl, rfl⟩

theorem nodes_reportThenSkip (s : ReadState) (e : SyntaxError) (stop : TokenKind → Bool) :
    ((s.report e).skipUntil stop).nodes = s.nodes := by
  obtain ⟨_, _, _, heq⟩ := ReadState.Reads.skipUntil stop (s.report e)
  rw [heq, ReadState.past_nodes]
  unfold ReadState.report
  split <;> rfl

/-- Inside of the run an error is noted, and tokens are skipped up to the row. -/
theorem Inside.remains_skip (h : Inside semi back base s) (e : SyntaxError) {front row : List Token}
    (hrest : s.rest = front ++ row) {stop : TokenKind → Bool}
    (hfront : ∀ t ∈ front, stop t.kind = false) (hrow : stop (kindOf row) = true) :
    Remains row base ((s.report e).skipUntil stop) := by
  obtain ⟨hreport, hspeculating, hoptional⟩ := report_fields s e
  have hskip : (s.report e).skipUntil stop = (s.report e).past front row := by
    refine ReadState.readWhile_of_append (hreport.trans hrest) (fun t ht ts => ?_) (Or.inr ?_)
    · rw [ReadState.kindOf_cons, hfront t ht]
      rfl
    · rw [hrow]
      rfl
  rw [hskip]
  obtain ⟨es, hes, hlength⟩ := exists_errors_report s e
  exact ⟨rfl, ⟨es, by rw [← h.errors]; exact hes, hlength⟩, hspeculating.trans h.speculating,
    hoptional.trans h.inOptional⟩

/-- Where the run is skipped, the semicolon remains. -/
theorem Inside.remains_semicolon (h : Inside semi back base s) (hsemi : semi.kind = .semicolon)
    (e : SyntaxError) : Remains (semi :: back) base ((s.report e).skipUntil fun kind =>
      kind == .semicolon || isMemberSync kind) := by
  obtain ⟨left, hrest, hleft⟩ := h.rest
  refine h.remains_skip e hrest (fun t ht => ?_) ?_
  · rw [(hleft t ht).sync, beq_false_of_ne (hleft t ht).semicolon]
    rfl
  · rw [ReadState.kindOf_cons, hsemi]
    rfl

/-- Where a broken member is skipped, nothing of the run remains. -/
theorem Inside.remains_back (h : Inside semi back base s) (hsemi : semi.kind = .semicolon)
    (hback : isMemberSync (kindOf back) = true) (e : SyntaxError) :
    Remains back base ((s.report e).skipUntil isMemberSync) := by
  obtain ⟨left, hrest, hleft⟩ := h.rest
  refine h.remains_skip e (hrest.trans (List.append_cons left semi back)) (fun t ht => ?_) hback
  rcases List.mem_append.mp ht with ht | ht
  · exact (hleft t ht).sync
  · rw [List.mem_singleton.mp ht, hsemi]
    rfl

theorem Remains.nodes {row : List Token} (h : Remains row base s) (nodes : NodeStack) :
    Remains row base { s with nodes } := ⟨h.rest, h.errors, h.speculating, h.inOptional⟩

theorem Strays.nodes (h : Strays semi back base s) (nodes : NodeStack) :
    Strays semi back base { s with nodes } := ⟨h.rest, h.errors, h.speculating, h.inOptional⟩

/-- A semicolon that is left is read where one is expected. -/
theorem Remains.ends_punctuation (h : Remains (semi :: back) base s) (hsemi : semi.kind = .semicolon)
    (cause : SyntaxError.Cause) : Ends True (punctuation .semicolon cause) s
      (fun _ t => Remains back base t) fun _ _ => False := by
  have hcurrent : s.current = .semicolon := (ReadState.current_of_cons h.rest).trans hsemi
  refine ends_bind.mpr (ends_expect.mpr ⟨fun _ => ?_, fun hne => absurd hcurrent hne⟩)
  rw [ReadState.advance_of_cons h.rest]
  have hpast : Remains back base (s.past [semi] back) :=
    ⟨rfl, h.errors, h.speculating, h.inOptional⟩
  unfold Ends
  rcases AgreeAt.leaf_cases (.token .semicolon) s.currentSpan (s.past [semi] back) with
    ⟨fault, hr⟩ | ⟨nodes, hr, _⟩
  · rw [hr]
    trivial
  · rw [hr]
    exact hpast.nodes nodes

/-! ## A broken property -/

/-- In front of the semicolon a property ends. -/
theorem Remains.ends_propertyEnd (h : Remains (semi :: back) base s) (hsemi : semi.kind = .semicolon)
    (isOptional : Bool) (type : Slot TypeName) (name : Slot Ident) :
    Ends True (propertyEnd isOptional type name) s (fun _ t => Remains back base t)
      fun _ _ => False := by
  have last : ∀ t, Remains (semi :: back) base t → Ends True (do
      if (type.isInvalid || name.isInvalid) && (← state).current != .semicolon then return
      punctuation .semicolon .propertyEnd) t (fun _ t => Remains back base t)
        fun _ _ => False := by
    intro t ht
    have hcurrent : t.current = .semicolon := (ReadState.current_of_cons ht.rest).trans hsemi
    refine ends_bind.mpr (ends_state.mpr (ends_ite.mpr ⟨fun hc => ?_, fun _ => ?_⟩))
    · rw [hcurrent] at hc
      simp at hc
    · exact ht.ends_punctuation hsemi _
  exact ends_bind.mpr (ends_modify.mpr (last _ (h.nodes _)))

/-- Behind a broken type no semicolon is missed. -/
theorem Strays.ends_propertyEnd (h : Strays semi back base s) (isOptional : Bool) (span : Span)
    (name : Slot Ident) : Ends True (propertyEnd isOptional (.invalid span) name) s
      (fun _ t => Strays semi back base t) fun _ _ => False := by
  obtain ⟨x, left, hrest, hleft⟩ := h.rest
  refine ends_bind.mpr (ends_modify.mpr (ends_bind.mpr (ends_state.mpr (ends_ite.mpr
    ⟨fun _ => h.nodes _, fun hc => ?_⟩))))
  have hne : x.kind ≠ .semicolon := (hleft x List.mem_cons_self).semicolon
  exact absurd (Bool.and_eq_true_iff.mpr ⟨rfl, bne_iff_ne.mpr fun heq =>
    hne ((ReadState.current_of_cons hrest).symm.trans heq)⟩) hc

/-- Inside of the run the semicolon is met at its end only. -/
theorem Inside.remains (h : Inside semi back base s) (hc : s.current = .semicolon) :
    Remains (semi :: back) base s := by
  obtain ⟨left, hrest, hleft⟩ := h.rest
  cases left with
  | nil =>
    exact ⟨hrest, ⟨[], by rw [h.errors, List.append_nil], Nat.zero_le 1⟩, h.speculating,
      h.inOptional⟩
  | cons x left =>
    exact absurd ((ReadState.current_of_cons hrest).symm.trans hc) (hleft x List.mem_cons_self).semicolon

/-- A property with a type and a name ends at the semicolon, or fails inside of the run. -/
theorem Inside.ends_propertyEnd (h : Inside semi back base s) (hsemi : semi.kind = .semicolon)
    (isOptional : Bool) (type : TypeName) (name : Ident) :
    Ends True (propertyEnd isOptional (.valid type) (.valid name)) s
      (fun _ t => Remains back base t) fun _ t => Inside semi back base t := by
  by_cases hc : s.current = .semicolon
  · exact ((h.remains hc).ends_propertyEnd hsemi isOptional _ _).mono (fun _ _ ht => ht)
      fun _ _ hfalse => hfalse.elim
  · refine ends_bind.mpr (ends_modify.mpr (ends_bind.mpr (ends_state.mpr ?_)))
    exact ends_bind.mpr (ends_expect.mpr ⟨fun hsame => absurd hsame hc, fun _ => h.nodes _⟩)

theorem Inside.current_cases (h : Inside semi back base s) (hsemi : semi.kind = .semicolon) :
    s.current = .semicolon ∨ isMemberSync s.current = false := by
  obtain ⟨left, hrest, hleft⟩ := h.rest
  cases left with
  | nil => exact Or.inl ((ReadState.current_of_cons hrest).trans hsemi)
  | cons x left =>
    rw [ReadState.current_of_cons hrest]
    exact Or.inr (hleft x List.mem_cons_self).sync

/-- What comes of filling a slot. -/
theorem ends_recover {α : Type} {r : Rule α} {sync : TokenKind → Bool}
    {Q : Slot α → ReadState → Prop} {E : SyntaxError → ReadState → Prop}
    (h : Ends True r s (fun a t => Q (.valid a) t) fun e t =>
      Q (.invalid e.span) ((t.report e).skipUntil sync)) : Ends True (recover r sync) s Q E := by
  unfold Ends at h ⊢
  unfold recover
  cases hr : r s with
  | broken fault => trivial
  | done a t => rw [hr] at h; exact h
  | failed e t => rw [hr] at h; exact h

theorem identifier_or_semicolon {kind : TokenKind} (hends : endsType kind = true)
    (hsync : isMemberSync kind = false) : kind = .identifier ∨ kind = .semicolon := by
  unfold endsType at hends
  rw [hsync] at hends
  simpa using hends

/-- Where a type breaks off, the run is skipped to a word or to the semicolon. -/
theorem Inside.skipType (h : Inside semi back base s) (hsemi : semi.kind = .semicolon)
    (e : SyntaxError) : Inside semi back (s.report e) ((s.report e).skipUntil endsType) ∧
      (((s.report e).skipUntil endsType).current = .identifier ∨
        ((s.report e).skipUntil endsType).current = .semicolon) := by
  have hstart : Inside semi back (s.report e) (s.report e) :=
    ⟨by rw [(report_fields s e).1]; exact h.rest, rfl, rfl, rfl⟩
  have hskip : Inside semi back (s.report e) ((s.report e).skipUntil endsType) :=
    hstart.readWhile hsemi fun ts hts => by rw [hts]; rfl
  refine ⟨hskip, ?_⟩
  rcases hskip.current_cases hsemi with hc | hsync
  · exact Or.inr hc
  · obtain ⟨_, rest, _, he, _, hstop⟩ := ReadState.Reads.readWhile_spec
      (fun ts => !endsType (kindOf ts)) (s.report e)
    have hrest : ((s.report e).skipUntil endsType).rest = rest := congrArg ReadState.rest he
    have hends : endsType ((s.report e).skipUntil endsType).current = true := by
      unfold ReadState.current
      rw [hrest]
      rcases hstop with rfl | hstop
      · rfl
      · simpa using hstop
    exact identifier_or_semicolon hends hsync

/-- What an error costs is one error. -/
theorem Remains.of_report {row : List Token} {e : SyntaxError} {t : ReadState}
    (h : Inside semi back base s) (ht : Inside semi back (s.report e) t) (hrest : t.rest = row) :
    Remains row base t := by
  obtain ⟨es, hes, hlength⟩ := exists_errors_report s e
  obtain ⟨_, hspeculating, hoptional⟩ := report_fields s e
  exact ⟨hrest, ⟨es, by rw [ht.errors, hes, h.errors], hlength⟩,
    (ht.speculating.trans hspeculating).trans h.speculating,
    (ht.inOptional.trans hoptional).trans h.inOptional⟩

theorem Strays.of_report {e : SyntaxError} {t : ReadState} (h : Inside semi back base s)
    (ht : Inside semi back (s.report e) t) (hnew : e.reported = false)
    (hc : t.current ≠ .semicolon) (hsemi : semi.kind = .semicolon) : Strays semi back base t := by
  obtain ⟨left, hrest, hleft⟩ := ht.rest
  obtain ⟨_, hspeculating, hoptional⟩ := report_fields s e
  have herrors : (s.report e).errors = s.errors.push { e with reported := true } := by
    unfold ReadState.report
    rw [hnew]
    rfl
  cases left with
  | nil => exact absurd ((ReadState.current_of_cons hrest).trans hsemi) hc
  | cons x left =>
    exact ⟨⟨x, left, hrest, hleft⟩, ⟨_, by rw [ht.errors, herrors, h.errors, Array.toList_push]⟩,
      (ht.speculating.trans hspeculating).trans h.speculating,
      (ht.inOptional.trans hoptional).trans h.inOptional⟩

/-- A type that breaks off leaves the semicolon, unless a word is left that it does not follow. -/
theorem Inside.ends_propertyName (h : Inside semi back base s) (hsemi : semi.kind = .semicolon)
    {e : SyntaxError} (hnew : e.reported = false) :
    Ends True (propertyName (.invalid e.span)) ((s.report e).skipUntil endsType)
      (fun _ t => Remains (semi :: back) base t ∨
        (((s.report e).skipUntil endsType).current = .identifier ∧
          ((s.report e).skipUntil endsType).second ≠ .semicolon) ∧ Strays semi back base t)
      fun _ _ => False := by
  obtain ⟨hskip, hcases⟩ := h.skipType hsemi e
  generalize (s.report e).skipUntil endsType = v at *
  refine ends_bind.mpr (ends_state.mpr (ends_ite.mpr ⟨fun hc => ?_, fun hc => ?_⟩))
  · -- No word is left, so that the parser stands before the semicolon.
    have hcurrent : v.current = .semicolon :=
      hcases.resolve_left fun hc' => by simp [hc'] at hc
    have hstay : v.skipUntil (fun kind => kind == .semicolon || isMemberSync kind) = v := by
      refine ReadState.readWhile_of_append (List.nil_append v.rest).symm (fun _ ht => by cases ht)
        (Or.inr ?_)
      rw [show kindOf v.rest = .semicolon from hcurrent]
      rfl
    refine ends_bind.mpr (ends_modify.mpr ?_)
    rw [hstay]
    exact Or.inl (.of_report h hskip (hskip.remains hcurrent).rest)
  · have hcurrent : v.current = .identifier := by
      by_contra hne
      exact hc (by simp [Slot.isInvalid, hne])
    refine ends_recover (ends_identifier.mpr ⟨fun _ => ?_, fun hne => absurd hcurrent hne⟩)
    have hadvance := hskip.advance hsemi (by rw [hcurrent]; decide)
    have hsecond : v.advance.current = v.second := by
      unfold ReadState.current
      rw [ReadState.rest_advance]
      rfl
    by_cases hword : v.second = .semicolon
    · exact Or.inl (.of_report h hadvance (hadvance.remains (hsecond.trans hword)).rest)
    · exact Or.inr ⟨⟨hcurrent, hword⟩, .of_report h hadvance hnew (by rwa [hsecond]) hsemi⟩

theorem typeLeavesWord_of_failed {e : SyntaxError} {t : ReadState} (hfailed : typeName s = .failed e t)
    (hword : ((t.report e).skipUntil endsType).current = .identifier ∧
      ((t.report e).skipUntil endsType).second ≠ .semicolon) :
    typeLeavesWord s = .done true ((t.report e).skipUntil endsType) := by
  have hrecover : recover typeName endsType s =
      .done (.invalid e.span) ((t.report e).skipUntil endsType) := by
    unfold recover
    rw [hfailed]
  unfold typeLeavesWord
  rw [bind_of_done hrecover]
  show Outcome.done (true && ((t.report e).skipUntil endsType).current == .identifier &&
    ((t.report e).skipUntil endsType).second != .semicolon) _ = _
  rw [hword.1, bne_iff_ne.mpr hword.2]
  rfl

/-- A property behind its modifiers. -/
theorem Inside.ends_propertyFields (h : Inside semi back base s) (hsemi : semi.kind = .semicolon)
    (isOptional : Bool) : Ends True (propertyFields isOptional) s
      (fun _ t => Remains back base t ∨
        (∃ u, typeLeavesWord s = .done true u) ∧ Strays semi back base t)
      fun _ t => Inside semi back base t := by
  have htype := (StaysInside.typeName hsemi s h).and (keeping_of_agreeAt (typeName_agreeAt s s))
  refine ends_bind.mpr (ends_recover ?_)
  unfold Ends at htype ⊢
  cases hr : typeName s with
  | broken fault => trivial
  | done type t =>
    rw [hr] at htype
    -- The name is there, or it is missing and the rest of the run is skipped.
    refine ends_bind.mpr (ends_recover (ends_identifier.mpr ⟨fun hc => ?_, fun _ => ?_⟩))
    · exact ((htype.1.advance hsemi (by rw [hc]; decide)).ends_propertyEnd hsemi isOptional type _).mono
        (fun _ _ ht => Or.inl ht) fun _ _ ht => ht
    · exact ((htype.1.remains_semicolon hsemi _).ends_propertyEnd hsemi isOptional _ _).mono
        (fun _ _ ht => Or.inl ht) fun _ _ hfalse => hfalse.elim
  | failed e t =>
    rw [hr] at htype
    obtain ⟨hinside, _, hnew⟩ := htype
    refine ends_bind.mpr ((hinside.ends_propertyName hsemi hnew).mono (fun name u hu => ?_)
      fun _ _ hfalse => hfalse.elim)
    rcases hu with hu | ⟨hword, hu⟩
    · exact (hu.ends_propertyEnd hsemi isOptional _ _).mono (fun _ _ ht => Or.inl ht)
        fun _ _ hfalse => hfalse.elim
    · exact (hu.ends_propertyEnd isOptional _ _).mono
        (fun _ _ ht => Or.inr ⟨⟨_, typeLeavesWord_of_failed hr hword⟩, ht⟩)
        fun _ _ hfalse => hfalse.elim

/-- A property behind its directive. -/
theorem Inside.ends_modifiersThenFields (h : Inside semi back base s)
    (hsemi : semi.kind = .semicolon) (hspeculating : s.speculating = false) (isOptional : Bool) :
    Ends True (do
      if (← state).current = .leftParen then modifierList
      propertyFields isOptional) s
      (fun _ t => Remains back base t ∨ LeavesWord s.rest ∧ Strays semi back base t)
      fun _ t => Inside semi back base t := by
  have leaves : ∀ t u, leavesWord s = typeLeavesWord t → typeLeavesWord t = .done true u →
      LeavesWord s.rest := fun t u heq hdone => ⟨s, u, rfl, hspeculating, heq.trans hdone⟩
  refine ends_bind.mpr (ends_state.mpr (ends_ite.mpr ⟨fun hc => ?_, fun hc => ?_⟩))
  · have hmodifiers := StaysInside.modifierList hsemi s h
    refine ends_bind.mpr ?_
    unfold Ends at hmodifiers ⊢
    cases hr : modifierList s with
    | broken fault => trivial
    | failed e t => rw [hr] at hmodifiers; exact hmodifiers
    | done _ t =>
      rw [hr] at hmodifiers
      have heq : leavesWord s = typeLeavesWord t := by
        show (if s.current = .leftParen then _ else _ : Rule Bool) s = _
        rw [if_pos hc]
        exact bind_of_done hr
      exact (hmodifiers.ends_propertyFields hsemi isOptional).mono
        (fun _ _ => .imp_right fun ⟨⟨u, hu⟩, ht⟩ => ⟨leaves t u heq hu, ht⟩) fun _ _ ht => ht
  · have heq : leavesWord s = typeLeavesWord s := by
      show (if s.current = .leftParen then _ else _ : Rule Bool) s = _
      rw [if_neg hc]
    exact (h.ends_propertyFields hsemi isOptional).mono
      (fun _ _ => .imp_right fun ⟨⟨u, hu⟩, ht⟩ => ⟨leaves s u heq hu, ht⟩) fun _ _ ht => ht

/-- What a rule adds to the nodes it adds to the innermost open one. -/
theorem exists_grows_of_agreeAt {α : Type} [Bare α] {r : Rule α} (h : AgreeAt none r r s s) :
    Ends True r s (fun _ t => ∃ kind cs, Grows s t kind cs) fun _ t => ∃ kind cs, Grows s t kind cs := by
  have hagreed := h.agreed ⟨rfl, rfl, rfl⟩ (not_ranOut_none _)
  unfold Ends
  cases hr : r s with
  | broken fault => trivial
  | done a t =>
    rw [hr] at hagreed
    cases hagreed with
    | doneOut _ _ out => exact absurd out (not_ranOut_none _)
    | done _ _ gain =>
      obtain ⟨⟨kind, cs, _, _, hgrows, _⟩, _⟩ := gain
      exact ⟨kind, cs, hgrows⟩
  | failed e t =>
    rw [hr] at hagreed
    cases hagreed with
    | failedOut _ _ out => exact absurd out (not_ranOut_none _)
    | failed _ _ _ gain =>
      obtain ⟨⟨kind, cs, _, _, hgrows, _⟩, _⟩ := gain
      exact ⟨kind, cs, hgrows⟩

/-- A rule inside a new node adds this node. -/
theorem ends_withNode_grown {α : Type} [Bare α] {kind : NodeKind} {r : Rule α}
    {Q : α → ReadState → Prop} {E : SyntaxError → ReadState → Prop}
    (hagree : AgreeAt none r r { s with nodes := s.nodes.begin kind }
      { s with nodes := s.nodes.begin kind })
    (h : Ends True r { s with nodes := s.nodes.begin kind } Q E)
    (hQ : ∀ a t nodes, Q a t → Q a { t with nodes })
    (hE : ∀ e t nodes, E e t → E e { t with nodes }) :
    Ends True (withNode kind r) s (fun a t => Q a t ∧ ∃ n, Grows s t none [n])
      fun e t => E e t ∧ ∃ n, Grows s t none [n] := by
  refine ends_withNode (h.and (exists_grows_of_agreeAt hagree)) ?_ ?_
  · rintro a t u ⟨ht, _, cs, hgrows⟩ hclose
    obtain ⟨⟨range, hnode⟩, hu⟩ := AgreeAt.grows_close hgrows hclose
    exact ⟨by rw [hu]; exact hQ a t _ ht, _, hnode⟩
  · rintro e t u ⟨ht, _, cs, hgrows⟩ hclose
    obtain ⟨⟨range, hnode⟩, hu⟩ := AgreeAt.grows_close hgrows hclose
    exact ⟨by rw [hu]; exact hE e t _ ht, _, hnode⟩

/-- A property whose directive has a run behind it leaves a node and what stands behind the
    semicolon, unless its type leaves a word. -/
theorem recoverMember_property {prop : Token} {run : List Token}
    (hrest : s.rest = prop :: run ++ semi :: back) (hsemi : semi.kind = .semicolon)
    (hback : isMemberSync (kindOf back) = true) (hspeculating : s.speculating = false)
    (hrun : ∀ t ∈ run, Plain t) :
    (∃ fault, recoverMember property s = .broken fault) ∨ ∃ t n,
      recoverMember property s = .done () t ∧ Grows s t none [n] ∧
      (Remains back s t ∨ LeavesWord (run ++ semi :: back) ∧ Strays semi back s t) := by
  let opened : ReadState :=
    { s with nodes := s.nodes.begin (.property ⟨.missing, .missing, s.inOptional⟩) }
  have hparts : Ends True (propertyParts s.inOptional) opened
      (fun _ t => Remains back s t ∨ LeavesWord (run ++ semi :: back) ∧ Strays semi back s t)
      fun _ t => Inside semi back s t := by
    have hadvance : opened.advance = opened.past [prop] (run ++ semi :: back) :=
      ReadState.advance_of_cons (show opened.rest = prop :: (run ++ semi :: back) from hrest)
    refine ends_bind.mpr (ends_bind.mpr (ends_state.mpr (ends_bind.mpr (ends_advance.mpr ?_))))
    rw [hadvance]
    unfold Ends
    rcases AgreeAt.leaf_cases (.keyword opened.current) opened.currentSpan
      (opened.past [prop] (run ++ semi :: back)) with ⟨fault, hr⟩ | ⟨nodes, hr, _⟩
    · rw [hr]
      trivial
    · rw [hr]
      have hinside : Inside semi back s
          { opened.past [prop] (run ++ semi :: back) with nodes } :=
        ⟨⟨run, rfl, hrun⟩, rfl, rfl, rfl⟩
      exact hinside.ends_modifiersThenFields hsemi hspeculating s.inOptional
  have hproperty : property s = withNode (.property ⟨.missing, .missing, s.inOptional⟩)
    (propertyParts s.inOptional) s := rfl
  have hnode := ends_withNode_grown (propertyParts_agreeAt s.inOptional opened opened) hparts
    (fun _ _ nodes => .imp (fun ht => ht.nodes nodes) fun ht => ⟨ht.1, ht.2.nodes nodes⟩)
    fun _ _ nodes ht => ht.nodes nodes
  unfold recoverMember
  unfold Ends at hnode
  rw [← hproperty] at hnode
  cases hr : property s with
  | broken fault => exact Or.inl ⟨fault, rfl⟩
  | done a t =>
    rw [hr] at hnode
    obtain ⟨ht, n, hgrows⟩ := hnode
    exact Or.inr ⟨t, n, rfl, hgrows, ht⟩
  | failed e t =>
    rw [hr] at hnode
    obtain ⟨ht, n, hgrows⟩ := hnode
    refine Or.inr ⟨_, n, rfl, fun m outer ho => ?_, Or.inl (ht.remains_back hsemi hback e)⟩
    rw [nodes_reportThenSkip]
    exact hgrows m outer ho

/-- What comes of a broken property: its node and one error at most, or, if its type leaves a word,
    one more node and two errors. -/
def LeavesProperty (row : List Token) (nodes : List Node) (errors : List SyntaxError) : Prop :=
  nodes.length = 1 ∧ errors.length ≤ 1 ∨
    LeavesWord row ∧ nodes.length = 2 ∧ errors.length = 2

theorem not_sync_of_inert {run : List Token} (h : Inert run)
    (hsigns : ∀ t ∈ run, t.kind ≠ .plus ∧ t.kind ≠ .minus) {t : Token} (ht : t ∈ run)
    (hfile : t.kind ≠ .endOfFile) : isMemberSync t.kind = false := by
  obtain ⟨hplus, hminus⟩ := hsigns t ht
  unfold isMemberSync
  rw [h.directives t ht, beq_false_of_ne hplus, beq_false_of_ne hminus, beq_false_of_ne hfile]
  rfl

theorem inert_of_plain {run : List Token} (h : ∀ t ∈ run, Plain t) : Inert run := by
  refine ⟨fun t ht => ?_, fun t ht => (h t ht).semicolon, ?_⟩
  · have hsync := (h t ht).sync
    unfold isMemberSync at hsync
    simp only [Bool.or_eq_false_iff] at hsync
    exact hsync.1.1.1
  · refine (List.pairwise_of_forall_mem_list fun t ht u _ hsign => ?_).isChain
    have hsync := (h t ht).sync
    rcases hsign with hsign | hsign <;> rw [hsign] at hsync <;> cases hsync

theorem leaves_property {inProtocol : Bool} {prop : Token} {run : List Token}
    (hprop : prop.kind = .atProperty) (hsemi : semi.kind = .semicolon)
    (hback : isMemberSync (kindOf back) = true) (hrun : ∀ t ∈ run, Plain t) :
    Leaves inProtocol (prop :: run ++ [semi]) back (LeavesProperty (run ++ semi :: back)) := by
  refine .of_rounds fun s hrest hspeculating => ?_
  have hcurrent : s.current = .atProperty := (ReadState.current_of_cons hrest).trans hprop
  have hround : memberRound (memberCause inProtocol) inProtocol s.current =
      recoverMember property := by
    rw [hcurrent]
    rfl
  rw [List.append_assoc] at hrest
  refine ⟨by rw [hcurrent]; rfl, ?_⟩
  rw [hround]
  rcases recoverMember_property hrest hsemi hback hspeculating hrun with hbroken |
    ⟨t, n, hdone, hgrows, ⟨ht, ⟨es, hes, hlength⟩, hspec, hoptional⟩ |
      ⟨hword, ⟨x, left, ht, hleft⟩, ⟨e, he⟩, hspec, hoptional⟩⟩
  · exact Or.inl hbroken
  · refine Or.inr ⟨t, [n], es, [], _, hdone, ⟨ht, hspec.trans hspeculating, hoptional, hgrows, hes⟩,
      .nil inProtocol back, ?_⟩
    rintro _ _ ⟨rfl, rfl⟩
    exact Or.inl ⟨rfl, by rwa [List.append_nil]⟩
  · refine Or.inr ⟨t, [n], [e], x :: left ++ [semi], _, hdone,
      ⟨ht.trans (by simp), hspec.trans hspeculating, hoptional, hgrows, he⟩,
      leaves_unknownMember (hleft x List.mem_cons_self).sync (inert_of_plain hleft) hsemi, ?_⟩
    rintro _ _ ⟨_, _, _, rfl, _, _, rfl⟩
    exact Or.inr ⟨hword, rfl, rfl⟩

/-! ## Finding out whether a word is left -/

theorem typeLeavesWord_agreeAt (s s' : ReadState) :
    AgreeAt none typeLeavesWord typeLeavesWord s s' := by
  refine (AgreeAt.recover (typeName_agreeAt s s') _).bind fun type type' t t' htype => .state ?_
  refine .seeing (.pure rfl t t') fun halike hsees => ?_
  rw [Slot.isInvalid_eq_of_bare htype, halike.current_eq hsees, halike.second_eq]

theorem leavesWord_agreeAt (s s' : ReadState) : AgreeAt none leavesWord leavesWord s s' := by
  refine .state (.ite (fun halike hsees => by rw [halike.current_eq hsees]) (fun _ => ?_) fun _ => ?_)
  · exact (modifierList_agreeAt s s').bind fun _ _ t t' _ => typeLeavesWord_agreeAt t t'
  · exact typeLeavesWord_agreeAt s s'

/-- It may be found out with any parser that stands before the row. -/
theorem not_leavesWord {row : List Token} (h : ∀ inOptional, ∃ t,
    leavesWord { before row with inOptional } = .done false t) : ¬ LeavesWord row := by
  rintro ⟨s, t, hrest, hspeculating, hdone⟩
  obtain ⟨t₀, hdone₀⟩ := h s.inOptional
  have halike : Alike none { before row with inOptional := s.inOptional } s :=
    ⟨congrArg (List.map Token.face) hrest.symm, hspeculating.symm, rfl⟩
  have hagreed := (leavesWord_agreeAt _ s).agreed halike (not_ranOut_none _)
  rw [hdone₀, hdone] at hagreed
  cases hagreed with
  | doneOut _ _ out => exact not_ranOut_none _ out
  | done values _ _ => cases values

end Grammar

open Grammar

/-- Where a broken member ends no head goes on. -/
theorem continuesHead_of_sync {ts : List Token} (h : isMemberSync (kindOf ts) = true) :
    continuesHead ts = false := by
  unfold continuesHead
  generalize kindOf ts = kind at h ⊢
  cases kind <;> first | rfl | cases h

/-- A property whose directive has a run of tokens behind it, with no directive, no sign, no comma
    and no semicolon, costs one error at most between the members of a body, unless its type breaks
    off and leaves a word that the semicolon does not follow: then it costs two. The tree is the tree
    without the property with one more node for each of the two. -/
theorem read_with_broken_property {source source' : String} (log log' : DiagnosticLog)
    (origin origin' : Option String) {inProtocol : Bool} {front front' run back back' : List Token}
    {prop semi : Token} (hsource : significant (tokenize source) = front ++ back)
    (hsource' : significant (tokenize source') = front' ++ (prop :: run ++ semi :: back'))
    (hfront : front.map Token.face = front'.map Token.face)
    (hback : back.map Token.face = back'.map Token.face) (hplace : LeadsInto inProtocol front)
    (hnext : isMemberSync (kindOf back) = true) (hprop : prop.kind = .atProperty)
    (hinert : Inert run) (hcommas : ∀ t ∈ run, t.kind ≠ .comma)
    (hsigns : ∀ t ∈ run, t.kind ≠ .plus ∧ t.kind ≠ .minus) (hsemi : semi.kind = .semicolon) :
    ∃ h h' extra, Header.read source log origin = .ok h ∧
      Header.read source' log' origin' = .ok h' ∧ Node.Inserted extra h.root h'.root ∧
      ∃ before after before' es after',
        h.errors = before ++ after ∧ h'.errors = before' ++ es ++ after' ∧
        (extra.length = 1 ∧ es.length ≤ 1 ∨
          LeavesWord (run ++ semi :: back') ∧ extra.length = 2 ∧ es.length = 2) ∧
        before.map SyntaxError.cause = before'.map SyntaxError.cause ∧
        after.map SyntaxError.cause = after'.map SyntaxError.cause := by
  have hmember : ∀ t ∈ run, t ∈ significant (tokenize source') := fun t ht => by
    rw [hsource']
    simp [ht]
  have hrun : ∀ t ∈ run, Plain t := fun t ht =>
    ⟨not_sync_of_inert hinert hsigns ht (ne_endOfFile_of_significant (hmember t ht)),
      hinert.semicolons t ht, hcommas t ht⟩
  rw [show prop :: run ++ semi :: back' = prop :: run ++ [semi] ++ back' by simp] at hsource'
  have hkind : kindOf back = kindOf back' :=
    (show Facing none back back' from hback).kindOf_eq (not_ranOut_none _)
  have htail' : continuesHead (prop :: run ++ [semi] ++ back') = false := by
    unfold continuesHead
    rw [show kindOf (prop :: run ++ [semi] ++ back') = .atProperty from hprop]
  obtain ⟨h, h', extra, es, hread, hread', hinserted, hleaves, before, after, before', after', herrors,
    herrors', hcauses, hcauses'⟩ := inserted_read log log' origin origin' hsource hsource' hfront
      hback hplace (continuesHead_of_sync hnext) htail'
      (leaves_property hprop hsemi (by rwa [← hkind]) hrun)
  exact ⟨h, h', extra, hread, hread', hinserted, before, after, before', es, after', herrors,
    herrors', hleaves, hcauses, hcauses'⟩

set_option maxRecDepth 4096 in
/-- A value behind the name of a property. -/
theorem read_with_broken_property_value :
    ∃ h h' extra, Header.read "@interface A -a; @end" = .ok h ∧
      Header.read "@interface A @property int b=c; -a; @end" = .ok h' ∧
      Node.Inserted extra h.root h'.root ∧ ∃ before after before' es after',
        h.errors = before ++ after ∧ h'.errors = before' ++ es ++ after' ∧
        (extra.length = 1 ∧ es.length ≤ 1) ∧
        before.map SyntaxError.cause = before'.map SyntaxError.cause ∧
        after.map SyntaxError.cause = after'.map SyntaxError.cause := by
  let front : List Token := [⟨.atInterface, "@interface", ⟨0, 10, by decide⟩⟩,
    ⟨.identifier, "A", ⟨11, 12, by decide⟩⟩]
  let back : List Token := [⟨.minus, "-", ⟨13, 14, by decide⟩⟩,
    ⟨.identifier, "a", ⟨14, 15, by decide⟩⟩, ⟨.semicolon, ";", ⟨15, 16, by decide⟩⟩,
    ⟨.atEnd, "@end", ⟨17, 21, by decide⟩⟩]
  let back' : List Token := [⟨.minus, "-", ⟨32, 33, by decide⟩⟩,
    ⟨.identifier, "a", ⟨33, 34, by decide⟩⟩, ⟨.semicolon, ";", ⟨34, 35, by decide⟩⟩,
    ⟨.atEnd, "@end", ⟨36, 40, by decide⟩⟩]
  let run : List Token := [⟨.identifier, "int", ⟨23, 26, by decide⟩⟩,
    ⟨.identifier, "b", ⟨27, 28, by decide⟩⟩, ⟨.eq, "=", ⟨28, 29, by decide⟩⟩,
    ⟨.identifier, "c", ⟨29, 30, by decide⟩⟩]
  let semi : Token := ⟨.semicolon, ";", ⟨30, 31, by decide⟩⟩
  have hsource : significant (tokenize "@interface A -a; @end") = front ++ back := by cbv
  have hsource' : significant (tokenize "@interface A @property int b=c; -a; @end") =
      front ++ (⟨.atProperty, "@property", ⟨13, 22, by decide⟩⟩ :: run ++ semi :: back') := by
    cbv
  have hplace : LeadsInto false front :=
    ⟨⟨.atEnd, "@end", ⟨13, 17, by decide⟩⟩, _, rfl, .refl _, rfl, rfl,
      fun h => Bool.noConfusion h, _, rfl, rfl, rfl⟩
  have hword : ¬ LeavesWord (run ++ semi :: back') := not_leavesWord fun _ => ⟨_, rfl⟩
  obtain ⟨h, h', extra, hread, hread', hinserted, before, after, before', es, after', herrors,
    herrors', hleaves, hcauses⟩ := read_with_broken_property .empty .empty none none hsource hsource'
      rfl rfl hplace rfl rfl ⟨by decide, by decide, by decide⟩ (by decide) (by decide) rfl
  exact ⟨h, h', extra, hread, hread', hinserted, before, after, before', es, after', herrors,
    herrors', hleaves.resolve_right fun hleft => hword hleft.1, hcauses⟩

/-- How many errors are noted while a header is read. -/
def errorCount : Outcome Unit → Option Nat
  | .done _ s => some s.errors.size
  | _ => none

theorem exists_read_of_errorCount {source : String} {row : List Token} {count : Nat}
    (hrow : significant (tokenize source) = row)
    (hcount : errorCount (header { before row with sourceLength := source.utf8ByteSize }) =
      some count) : ∃ h, Header.read source = .ok h ∧ h.errors.length = count := by
  subst hrow
  cases hdone : header (.start source (tokenize source) .empty none) with
  | done _ s =>
    obtain ⟨root, _, _, _, hread, _⟩ := exists_read_of_header hdone
    have hsize : errorCount (.done () s) = some count := hdone ▸ hcount
    exact ⟨_, hread, Option.some.inj hsize⟩
  | failed _ _ => exact absurd (hdone ▸ hcount : errorCount (.failed _ _) = some count) nofun
  | broken _ => exact absurd (hdone ▸ hcount : errorCount (.broken _) = some count) nofun

set_option maxRecDepth 4096 in
/-- A sign in the value of a property is taken for the start of a method, which is a second error. -/
theorem exists_broken_property_two_errors :
    ∃ (source source' : String) (front run back back' : List Token) (prop semi : Token)
      (h h' : Header), significant (tokenize source) = front ++ back ∧
      significant (tokenize source') = front ++ (prop :: run ++ semi :: back') ∧
      back.map Token.face = back'.map Token.face ∧ LeadsInto false front ∧
      prop.kind = .atProperty ∧ Inert run ∧ (∀ t ∈ run, t.kind ≠ .comma) ∧
      semi.kind = .semicolon ∧ Header.read source = .ok h ∧ h.errors = [] ∧
      Header.read source' = .ok h' ∧ h'.errors.length = 2 := by
  let front : List Token := [⟨.atInterface, "@interface", ⟨0, 10, by decide⟩⟩,
    ⟨.identifier, "A", ⟨11, 12, by decide⟩⟩]
  let run : List Token := [⟨.identifier, "int", ⟨23, 26, by decide⟩⟩,
    ⟨.identifier, "b", ⟨27, 28, by decide⟩⟩, ⟨.eq, "=", ⟨28, 29, by decide⟩⟩,
    ⟨.minus, "-", ⟨29, 30, by decide⟩⟩, ⟨.intLiteral, "1", ⟨30, 31, by decide⟩⟩]
  let close : List Token := [⟨.atEnd, "@end", ⟨13, 17, by decide⟩⟩]
  let row : List Token := front ++ (⟨.atProperty, "@property", ⟨13, 22, by decide⟩⟩ :: run ++
    [⟨.semicolon, ";", ⟨31, 32, by decide⟩⟩, ⟨.atEnd, "@end", ⟨33, 37, by decide⟩⟩])
  have hsource : significant (tokenize "@interface A @end") = front ++ close := by cbv
  have hsource' : significant (tokenize "@interface A @property int b=-1; @end") = row := by cbv
  have hplace : LeadsInto false front :=
    ⟨⟨.atEnd, "@end", ⟨13, 17, by decide⟩⟩, _, rfl, .refl _, rfl, rfl,
      fun h => Bool.noConfusion h, _, rfl, rfl, rfl⟩
  obtain ⟨h, hread, hnone⟩ := exists_read_of_errorCount hsource (show _ = some 0 by decide +kernel)
  obtain ⟨h', hread', htwo⟩ := exists_read_of_errorCount hsource' (show _ = some 2 by decide +kernel)
  exact ⟨_, _, front, run, close, _, _, _, h, h', hsource, hsource', rfl, hplace, rfl,
    ⟨by decide, by decide, by decide⟩, by decide, rfl, hread, List.length_eq_zero_iff.mp hnone,
    hread', htwo⟩

end HeaderBridge
