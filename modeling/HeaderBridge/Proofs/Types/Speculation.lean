/-
  What a failed try leaves behind. A type in parentheses is tried in front of a cast and behind
  `sizeof`. If the try fails, everything but the tokens is as it was, and the tokens are as they
  were if no double bracket stands at a place where a list of the tried type may end. If one does,
  its halves stay apart, so that a shift operator behind a comparison is lost.
-/
import HeaderBridge.Objc.Grammar.Expr
import HeaderBridge.Objc.Parse
import HeaderBridge.Proofs.Types.Exact
import Mathlib

namespace HeaderBridge

open ReadState (kindOf HasRead HasTaken Shifts Splits)

namespace Grammar

open Rule

variable {s s' : ReadState}

/-! ## Type names -/

/-- A type name ends where its qualifiers and the type behind them do, and its type is this one. -/
theorem ends_typeName_type {Q : ObjcType → ReadState → Prop} {E : ReadState → Prop}
    (h : Ends True qualifiers s (fun _ s₁ => Ends True (objcType (s₁.weight + 1)) s₁
      (fun found s₂ => Q found.1 s₂) fun _ s₂ => E s₂) fun _ s₁ => E s₁) :
    Ends True typeName s (fun name s₂ => Q name.type s₂) fun _ s₂ => E s₂ := by
  unfold typeName
  refine ends_bind.mpr (ends_state.mpr (ends_bind.mpr (h.mono (fun _ s₁ h₁ => ?_) fun _ _ h => h)))
  refine ends_bind.mpr (ends_state.mpr (ends_bind.mpr ?_))
  have hfail : Ends True (failingAs .typeName (objcType (s₁.weight + 1))) s₁
      (fun found s₂ => Q found.1 s₂) fun _ s₂ => E s₂ := by
    unfold Ends at h₁ ⊢
    unfold failingAs
    cases hr : objcType (s₁.weight + 1) s₁ with
    | done a s' => rw [hr] at h₁; exact h₁
    | failed e s' => rw [hr] at h₁; exact h₁
    | broken f => trivial
  refine hfail.mono (fun found s₂ h₂ => ?_) fun _ _ h => h
  refine ends_bind.mpr (ends_state.mpr ?_)
  split
  · exact h₂
  · exact trivial

theorem ends_typeName {Q E : ReadState → Prop}
    (h : Ends True qualifiers s (fun _ s₁ => Ends True (objcType (s₁.weight + 1)) s₁
      (fun _ s₂ => Q s₂) fun _ s₂ => E s₂) fun _ s₁ => E s₁) :
    Ends True typeName s (fun _ s₂ => Q s₂) fun _ s₂ => E s₂ :=
  @ends_typeName_type s (fun _ => Q) E h

/-- A type name is read from qualifiers and a type, of which brackets may be taken apart. -/
theorem typeName_writesAt (hs : s.speculating = true) :
    Ends True typeName s (fun name s' => ∃ front, HasTaken s front s' ∧
      ArgumentSpelling front name.type) fun _ s' => ∃ front, HasTaken s front s' := by
  refine @ends_typeName_type s (fun type s' => ∃ front, HasTaken s front s' ∧
    ArgumentSpelling front type) (fun s' => ∃ front, HasTaken s front s') ?_
  refine (ends_qualifiers_exact s).mono (fun _ s₁ h₁ => ?_) fun _ _ h => h.elim
  obtain ⟨quals, hquals, hq, _, hfree⟩ := h₁
  have hR := takesTokens_hasTaken
  have hread := hR.of_read hquals
  refine (objcType_writesAt hR _ s₁ ((hR.speculating hread).trans hs) (mends_hasTaken _ s₁)).mono
    (fun v s₂ h₂ => ?_) fun _ _ h => hR.exists_trans hread h
  obtain ⟨body, hread₂, hspelt⟩ := h₂
  exact ⟨_, hR.trans hread hread₂, ⟨quals, body, v.1, v.2⟩, rfl, rfl,
    ⟨hq, startsWithQualifier_of_takes hR hread₂ hfree⟩, hspelt⟩

theorem typeName_shiftsAt (hs : s.speculating = true) : ShiftsAt typeName s := by
  refine ends_typeName ((qualifiers_shiftsAt s).mono (fun _ s₁ h₁ => ?_) fun _ _ h => h)
  exact (objcType_shiftsAt _ s₁ (h₁.speculating.trans hs)).mono (fun _ _ h => h₁.trans h)
    fun _ _ h => h₁.trans h

/-- A type name that meets a double bracket where a list may end takes it apart. -/
theorem typeName_splitsAt (hs : s.speculating = true) (h : MeetsDouble s.rest) :
    SplitsAt typeName s := by
  obtain ⟨quals, inner, d, us, hr, hq, hfree, hinner, hd⟩ := h
  have hstart : kindOf inner = .identifier := by
    have := hinner.starts []
    rwa [List.append_nil] at this
  have hquals := (finds_qualifiers hq (startsWithQualifier_append hfree hstart _)
    (halved_of_eq hr)).exact (qualifiers_shiftsAt s) hr
  have hreads : Shifts s (s.past quals (inner ++ d :: us)) :=
    ReadState.Reads.shifts ⟨_, _, hr, rfl⟩
  refine ends_typeName (hquals.mono (fun _ s₁ h₁ => ?_) fun _ _ h => h.elim)
  obtain ⟨_, rfl⟩ := h₁
  exact (objcType_splitsAt hinner _ d us (s.past quals (inner ++ d :: us)) hd hs rfl).mono
    (fun _ _ h => Splits.trans_right hreads h) fun _ _ h => Splits.trans_right hreads h

/-- A type name that meets no such bracket only reads. -/
theorem typeName_readsAt (hs : s.speculating = true) (h : ¬ MeetsDouble s.rest) :
    Ends True typeName s (fun _ s' => s.Reads s') fun _ s' => s.Reads s' := by
  refine ends_typeName ((ends_qualifiers_exact s).mono (fun _ s₁ h₁ => ?_) fun _ _ h => h.elim)
  obtain ⟨quals, hread, hq, _, hfree⟩ := h₁
  have hno : NoDouble OpenSpelling s₁.rest := by
    intro inner d us hinner hd hr
    rw [hr] at hfree
    exact h ⟨quals, inner, d, us, by rw [hread.rest_eq, hr], hq,
      startsWithQualifier_of_append hfree, hinner, hd⟩
  refine (objcType_writesAt takesTokens_hasRead _ s₁ (hread.speculating.trans hs)
    (mends_hasRead hno)).mono (fun v s₂ h₂ => ?_) fun _ s₂ h₂ => ?_
  · obtain ⟨front, hread₂, _⟩ := h₂
    exact hread.reads.trans hread₂.reads
  · obtain ⟨front, hread₂⟩ := h₂
    exact hread.reads.trans hread₂.reads

/-! ## Types in parentheses -/

/-- A parenthesis, a type name and an end that only reads. -/
theorem ends_parenthesized {last : TypeName → Rule ObjcType}
    (hlast : ∀ name s', Ends True (last name) s' (fun _ s'' => s'.Reads s'')
      fun _ s'' => s'.Reads s'')
    (hs : s.speculating = true) :
    ShiftsAt (advance >>= fun _ => typeName >>= last) s ∧
    (MeetsDouble (s.rest.drop 1) → SplitsAt (advance >>= fun _ => typeName >>= last) s) ∧
    (¬ MeetsDouble (s.rest.drop 1) → Ends True (advance >>= fun _ => typeName >>= last) s
      (fun _ s' => s.Reads s') fun _ s' => s.Reads s') := by
  have hadv := ReadState.Reads.advance s
  have hs₁ : s.advance.speculating = true := hadv.shifts.speculating.trans hs
  rw [← ReadState.rest_advance]
  refine ⟨(ShiftsAt.advance s).bind fun _ s₁ h₁ => ?_, fun h => ?_, fun h => ?_⟩
  · refine (typeName_shiftsAt (h₁.speculating.trans hs)).bind fun name s₂ _ => ?_
    exact ShiftsAt.of_reads (hlast name s₂)
  · have hrest : SplitsAt (typeName >>= last) s.advance :=
      (typeName_splitsAt hs₁ h).bind fun name s₂ _ => ShiftsAt.of_reads (hlast name s₂)
    refine ends_bind.mpr (ends_advance.mpr (hrest.mono (fun _ _ h => ?_) fun _ _ h => ?_))
    · exact Splits.trans_right hadv.shifts h
    · exact Splits.trans_right hadv.shifts h
  · refine ends_bind.mpr (ends_advance.mpr (ends_bind.mpr ?_))
    refine (typeName_readsAt hs₁ h).mono (fun name s₂ h₂ => ?_) fun _ _ h => hadv.trans h
    exact (hlast name s₂).mono (fun _ _ h => (hadv.trans h₂).trans h)
      fun _ _ h => (hadv.trans h₂).trans h

/-- A rule for a type that is only tried. -/
def IsTried (r : Rule ObjcType) : Prop := r = castType ∨ r = typeInParens

theorem IsTried.ends {r : Rule ObjcType} (hr : IsTried r) (hs : s.speculating = true) :
    ShiftsAt r s ∧ (MeetsDouble (s.rest.drop 1) → SplitsAt r s) ∧
    (¬ MeetsDouble (s.rest.drop 1) → Ends True r s (fun _ s' => s.Reads s')
      fun _ s' => s.Reads s') := by
  rcases hr with rfl | rfl
  · refine ends_parenthesized (fun name s' => ?_) hs
    simp only [ends_bind, ends_expect, ends_state, ends_ite, ends_pure, ends_failHere]
    have hadv := ReadState.Reads.advance s'
    exact ⟨fun _ => ⟨fun _ => hadv, fun _ => hadv⟩, fun _ => .refl s'⟩
  · refine ends_parenthesized (fun name s' => ?_) hs
    simp only [ends_bind, ends_expect, ends_pure]
    exact ⟨fun _ => .advance s', fun _ => .refl s'⟩

end Grammar

/-! ## Going back -/

theorem NodeStack.restore_checkpoint (s : NodeStack) : s.restore s.checkpoint = .ok s := by
  unfold restore
  rw [if_pos (show s.depth = s.checkpoint.depth from rfl)]
  obtain ⟨opened, nextId⟩ := s
  cases opened with
  | nil => rfl
  | cons n outer =>
    obtain ⟨id, kind, range, children⟩ := n
    have hall : children.take (checkpoint ⟨⟨id, kind, range, children⟩ :: outer, nextId⟩).children =
        children := List.take_length
    simp only [update, hall]

namespace Grammar

open Rule

variable {s s' : ReadState}

theorem attempt_of_done {α : Type} {r : Rule α} {a : α} {t : ReadState}
    (h : r { s with speculating := true } = .done a t) :
    attempt r s = .done (some a) { t with speculating := s.speculating } := by
  unfold attempt
  rw [h]

theorem attempt_of_broken {α : Type} {r : Rule α} {fault : Fault}
    (h : r { s with speculating := true } = .broken fault) : attempt r s = .broken fault := by
  unfold attempt
  rw [h]

/-- Where a tried rule fails behind some tokens, they are unread again. -/
theorem attempt_of_failed {α : Type} {r : Rule α} {e : SyntaxError} {front rest : List Token}
    (h : r { s with speculating := true } =
      .failed e (ReadState.past { s with speculating := true } front rest)) :
    attempt r s = .done none { s with rest := front ++ rest } := by
  have hnodes : (ReadState.past { s with speculating := true } front rest).nodes.restore
      s.nodes.checkpoint = .ok s.nodes := NodeStack.restore_checkpoint s.nodes
  have hback : (ReadState.past { s with speculating := true } front rest).backTo s.position =
      { s with speculating := true, rest := front ++ rest } :=
    ReadState.backTo_of_passed rfl
  unfold attempt
  rw [h]
  simp only [hnodes, hback]

/-- A try that fails gives back everything but the row of tokens. -/
theorem attempt_none {α : Type} {r : Rule α} (hr : ShiftsAt r { s with speculating := true })
    (h : attempt r s = .done none s') :
    ∃ e after front rest, r { s with speculating := true } = .failed e after ∧
      Halved s.rest (front ++ rest) ∧
      after = ReadState.past { s with speculating := true } front rest ∧
      s' = { s with rest := front ++ rest } := by
  unfold ShiftsAt Ends at hr
  cases hrun : r { s with speculating := true } with
  | done a after =>
    rw [attempt_of_done hrun] at h
    cases h
  | failed e after =>
    rw [hrun] at hr
    obtain ⟨front, rest, hrow, rfl⟩ := hr
    rw [attempt_of_failed hrun] at h
    cases h
    exact ⟨e, _, front, rest, rfl, hrow, rfl, rfl⟩
  | broken f =>
    rw [attempt_of_broken hrun] at h
    cases h

theorem past_injective {front rest front' rest' : List Token}
    (h : s.past front rest = s.past front' rest') : front = front' ∧ rest = rest' := by
  refine ⟨?_, congrArg ReadState.rest h⟩
  have := congrArg ReadState.passed h
  simpa using this

/-- A failed try of a type changes nothing but the row of tokens, and that only by taking double
    brackets apart. The state is the same if and only if none stands where a list may end. -/
theorem attempt_none_iff {r : Rule ObjcType} (hr : IsTried r) (h : attempt r s = .done none s') :
    s' = { s with rest := s'.rest } ∧ Halved s.rest s'.rest ∧
      (s' = s ↔ ¬ MeetsDouble (s.rest.drop 1)) := by
  obtain ⟨hshifts, hsplits, hreads⟩ :=
    hr.ends (s := { s with speculating := true }) rfl
  obtain ⟨e, after, front, rest, hrun, hrow, rfl, rfl⟩ := attempt_none hshifts h
  refine ⟨rfl, hrow, fun hsame hmeets => ?_, fun hmeets => ?_⟩
  · -- A bracket that was taken apart makes the row longer.
    obtain ⟨front', rest', _, hlen, hpast⟩ := (hsplits hmeets).of_failed hrun
    obtain ⟨rfl, rfl⟩ := past_injective hpast
    have hrest := congrArg (fun s => s.rest.length) hsame
    exact absurd hrest (Nat.ne_of_gt hlen)
  · obtain ⟨front', rest', hrow', hpast⟩ := (hreads hmeets).of_failed hrun
    obtain ⟨rfl, rfl⟩ := past_injective hpast
    have hsame : front ++ rest = s.rest := hrow'.symm
    rw [hsame]

/-- A comparison with a shift in parentheses, as it stands in front of a parser. -/
def comparison : ReadState :=
  ReadState.start "(a<b>>c)" (tokenize "(a<b>>c)") .empty none

/-- What is left of the row of tokens when this comparison was tried as a cast. -/
def comparisonTried : List Token := [
  ⟨.leftParen, "(", ⟨0, 1, by decide⟩⟩, ⟨.identifier, "a", ⟨1, 2, by decide⟩⟩,
  ⟨.less, "<", ⟨2, 3, by decide⟩⟩, ⟨.identifier, "b", ⟨3, 4, by decide⟩⟩,
  ⟨.greater, ">", ⟨4, 5, by decide⟩⟩, ⟨.greater, ">", ⟨5, 6, by decide⟩⟩,
  ⟨.identifier, "c", ⟨6, 7, by decide⟩⟩, ⟨.rightParen, ")", ⟨7, 8, by decide⟩⟩]

theorem comparison_rest : comparison.rest = [
    ⟨.leftParen, "(", ⟨0, 1, by decide⟩⟩, ⟨.identifier, "a", ⟨1, 2, by decide⟩⟩,
    ⟨.less, "<", ⟨2, 3, by decide⟩⟩, ⟨.identifier, "b", ⟨3, 4, by decide⟩⟩,
    ⟨.shiftRight, ">>", ⟨4, 6, by decide⟩⟩, ⟨.identifier, "c", ⟨6, 7, by decide⟩⟩,
    ⟨.rightParen, ")", ⟨7, 8, by decide⟩⟩] := by
  cbv

theorem attempt_comparison :
    attempt castType comparison = .done none { comparison with rest := comparisonTried } := by
  have htokens : comparison = { comparison with rest := comparison.rest } := rfl
  rw [htokens, comparison_rest]
  rfl

/-- The try that fails on the comparison leaves the row longer than it found it. -/
theorem comparisonTried_ne : { comparison with rest := comparisonTried } ≠ comparison := by
  intro h
  have hlength := congrArg (fun s => s.rest.length) h
  rw [show comparison.rest.length = 7 by rw [comparison_rest]; rfl] at hlength
  cases hlength

/-- The comparison is no cast, but the try has taken its shift operator apart. -/
theorem attempt_none_iff_comparison :
    ∃ s', attempt castType comparison = .done none s' ∧ Halved comparison.rest s'.rest ∧
      (s' = comparison ↔ ¬ MeetsDouble (comparison.rest.drop 1)) ∧
      MeetsDouble (comparison.rest.drop 1) := by
  obtain ⟨_, hrow, hiff⟩ := attempt_none_iff (Or.inl rfl) attempt_comparison
  refine ⟨_, attempt_comparison, hrow, hiff, ?_⟩
  by_cases hmeets : MeetsDouble (comparison.rest.drop 1)
  · exact hmeets
  · exact absurd (hiff.mpr hmeets) comparisonTried_ne

/-- A try that fails does not always leave the row of tokens as the lexer made it. -/
theorem exists_attempt_none_ne :
    ∃ (r : Rule ObjcType) (s s' : ReadState),
      IsTried r ∧ attempt r s = .done none s' ∧ s' ≠ s :=
  ⟨castType, comparison, _, Or.inl rfl, attempt_comparison, comparisonTried_ne⟩

end Grammar

end HeaderBridge
