/-
  What is read in front of a list that is still to come. `FramesAt view r r' s` says of a rule `r` that
  is read from `s` without an error: if it leaves tokens that `sees` allows in front of some others,
  then it does not depend on the others, and `r'` comes to the very same value and state in front of
  anything else, in any source. Fuel plays no part, since a rule that is out of fuel breaks. The
  combinators of the grammar are framed in front of an opening delimiter (`OpensAhead`), which no look ahead
  of a rule passes.
-/
import HeaderBridge.Proofs.Agreement.Members

namespace HeaderBridge

open ReadState (kindOf)
open Grammar (keeping_of_agreeAt)

namespace ReadState

/-- The same place in front of other tokens, in the source that another state is in. -/
def onto (s : ReadState) (us : List Token) (o : ReadState) : ReadState :=
  { o with
    passed := s.passed, rest := us, nodes := s.nodes, errors := s.errors,
    speculating := s.speculating, inOptional := s.inOptional }

variable {s o : ReadState} {us : List Token}

@[simp] theorem onto_passed : (s.onto us o).passed = s.passed := rfl
@[simp] theorem onto_rest : (s.onto us o).rest = us := rfl
@[simp] theorem onto_nodes : (s.onto us o).nodes = s.nodes := rfl
@[simp] theorem onto_errors : (s.onto us o).errors = s.errors := rfl
@[simp] theorem onto_speculating : (s.onto us o).speculating = s.speculating := rfl
@[simp] theorem onto_inOptional : (s.onto us o).inOptional = s.inOptional := rfl
@[simp] theorem onto_current : (s.onto us o).current = kindOf us := rfl
@[simp] theorem onto_position : (s.onto us o).position = s.position := rfl
@[simp] theorem onto_lastEnd : (s.onto us o).lastEnd = s.lastEnd := rfl

end ReadState

/-- Among the tokens is one that opens a list. -/
def OpensAhead (q : List Token) : Prop := ∃ t ∈ q, t.kind = .less ∨ t.kind = .leftParen

namespace OpensAhead

variable {q : List Token}

theorem append (front : List Token) (h : OpensAhead q) : OpensAhead (front ++ q) := by
  obtain ⟨t, ht, hkind⟩ := h
  exact ⟨t, List.mem_append_right front ht, hkind⟩

theorem cons (t : Token) (h : OpensAhead q) : OpensAhead (t :: q) := h.append [t]

theorem of_cons {t : Token} (h : OpensAhead (t :: q)) (hl : t.kind ≠ .less) (hp : t.kind ≠ .leftParen) :
    OpensAhead q := by
  obtain ⟨u, hu, hkind⟩ := h
  rcases List.mem_cons.mp hu with rfl | hu
  · exact absurd hkind (not_or.mpr ⟨hl, hp⟩)
  · exact ⟨u, hu, hkind⟩

theorem exists_cons (h : OpensAhead q) : ∃ t ts, q = t :: ts := by
  obtain ⟨t, ht, _⟩ := h
  exact List.exists_cons_of_ne_nil (List.ne_nil_of_mem ht)

theorem kindOf_append (h : OpensAhead q) (us : List Token) : kindOf (q ++ us) = kindOf q := by
  obtain ⟨t, ts, rfl⟩ := h.exists_cons
  rfl

end OpensAhead

namespace Rule

/-! ## Reading without errors -/

/-- The rule comes to a value without an error. -/
structure Neatly {α : Type} (r : Rule α) (s : ReadState) (a : α) (t : ReadState) : Prop where
  done : r s = .done a t
  errors : t.errors.size = s.errors.size

section Neatly

variable {α β : Type} {r : Rule β} {f : β → Rule α} {s t u : ReadState} {a : α} {b : β}

theorem Neatly.of_bind (h : Neatly (r >>= f) s a u) (hr : Keeping r s)
    (hf : ∀ b t, Keeping (f b) t) : ∃ b t, Neatly r s b t ∧ Neatly (f b) t a u := by
  obtain ⟨b, t, hrs, hfb⟩ := exists_of_bind h.done
  have hle := (hr.of_done hrs).errors
  have hle' := ((hf b t).of_done hfb).errors
  have herrors := h.errors
  exact ⟨b, t, ⟨hrs, by omega⟩, hfb, by omega⟩

theorem Neatly.of_state {f : ReadState → Rule α} (h : Neatly (Rule.state >>= f) s a u) :
    Neatly (f s) s a u := ⟨h.done, h.errors⟩

theorem Neatly.of_ite {c : Prop} [Decidable c] {r₁ r₂ : Rule α}
    (h : Neatly (if c then r₁ else r₂) s a u) : (c ∧ Neatly r₁ s a u) ∨ (¬ c ∧ Neatly r₂ s a u) := by
  split at h
  · next hc => exact Or.inl ⟨hc, h⟩
  · next hc => exact Or.inr ⟨hc, h⟩

theorem Neatly.of_withNode {kind : NodeKind} {r : Rule α} (h : Neatly (Rule.withNode kind r) s a u) :
    ∃ t, Neatly r { s with nodes := s.nodes.begin kind } a t ∧
      closeNode s.currentSpan.start s.position s.nodes.depth t = .ok u := by
  obtain ⟨hdone, herrors⟩ := h
  obtain ⟨t, hr, hclose⟩ := done_of_withNode hdone
  obtain ⟨_, _, _, _, _, _, _, rfl⟩ := closeNode_cases hclose
  exact ⟨t, ⟨hr, herrors⟩, hclose⟩

/-- A slot that is filled without an error is filled with a value. -/
theorem Neatly.of_recover {r : Rule β} {sync : TokenKind → Bool} {slot : Slot β}
    (h : Neatly (Rule.recover r sync) s slot t) (hr : Keeping r s) :
    ∃ b, slot = .valid b ∧ Neatly r s b t := by
  obtain ⟨hdone, herrors⟩ := h
  unfold Keeping Ends at hr
  unfold Rule.recover at hdone
  cases hrs : r s with
  | broken fault => rw [hrs] at hdone; cases hdone
  | failed e v =>
    rw [hrs] at hdone hr
    cases hdone
    have hle := hr.1.errors
    rw [errors_reportThenSkip hr.2] at herrors
    omega
  | done b v =>
    rw [hrs] at hdone
    cases hdone
    exact ⟨b, rfl, hrs, herrors⟩

/-- The first rule does what the second one does, but where the second one fails, it notes the error
    and may go on. -/
structure Rescues {α : Type} (r₁ r : Rule α) : Prop where
  done : ∀ {s a t}, r s = .done a t → r₁ s = .done a t
  broken : ∀ {s fault}, r s = .broken fault → r₁ s = .broken fault
  failed : ∀ {s e t}, r s = .failed e t → e.reported = false →
    Ends True r₁ s (fun _ u => t.errors.size < u.errors.size) fun _ _ => True

/-- A rule that is rescued was in no need of it if it is read without an error. -/
theorem Neatly.of_rescues {r₁ r : Rule α} (hrescues : Rescues r₁ r) (h : Neatly r₁ s a u)
    (hr : Keeping r s) : Neatly r s a u := by
  obtain ⟨hdone, herrors⟩ := h
  unfold Keeping Ends at hr
  cases hrs : r s with
  | broken fault =>
    rw [hrescues.broken hrs] at hdone
    cases hdone
  | failed e t =>
    rw [hrs] at hr
    have hlt := (hrescues.failed hrs hr.2).of_done hdone
    have hle := hr.1.errors
    omega
  | done b t =>
    rw [hrescues.done hrs] at hdone
    cases hdone
    exact ⟨hrs, herrors⟩

theorem rescues_recoverMember (r : Rule Unit) : Rescues (Grammar.recoverMember r) r where
  done h := by unfold Grammar.recoverMember; rw [h]
  broken h := by unfold Grammar.recoverMember; rw [h]
  failed h hnew := by
    unfold Ends Grammar.recoverMember
    rw [h]
    show _ < _
    rw [errors_reportThenSkip hnew]
    exact Nat.lt_succ_self _

/-- Behind an error that was noted the text is passed over, and perhaps a token read. -/
theorem ends_skipThenEat {e : SyntaxError} (hnew : e.reported = false) (stop : TokenKind → Bool)
    (kind : TokenKind) (t : ReadState) :
    Ends True (do let _ ← Rule.eat kind) ((t.report e).skipUntil stop)
      (fun _ u => t.errors.size < u.errors.size) fun _ _ => True := by
  have hsize : ((t.report e).skipUntil stop).errors.size = t.errors.size + 1 :=
    errors_reportThenSkip hnew
  refine (keeping_of_agreeAt (AgreeAt.eatThenPure kind _ ((t.report e).skipUntil stop))).mono
    (fun _ u hkeeps => ?_) fun _ _ _ => trivial
  have hle := hkeeps.errors
  omega

theorem rescues_recoverDeclaration (r : Rule Unit) :
    Rescues (Grammar.recoverDeclaration r) r where
  done h := by unfold Grammar.recoverDeclaration; rw [h]
  broken h := by unfold Grammar.recoverDeclaration; rw [h]
  failed {s e t} h hnew := by
    have hends := ends_skipThenEat hnew Grammar.endsBody .atEnd t
    unfold Ends Grammar.recoverDeclaration
    rw [h]
    exact hends

end Neatly

/-! ## Framed rules -/

/-- What is left of the tokens in common, and what may stand behind it. -/
structure View where
  sees : List Token → Prop
  stops : List Token → Prop
  cons : ∀ (t : Token) {q : List Token}, sees q → sees (t :: q)

/-- In front of an opening delimiter. -/
def ahead : View := ⟨OpensAhead, fun _ => True, fun t _ h => h.cons t⟩

/-- In front of what may follow an item of a list. -/
def itemEnd : View :=
  ⟨fun _ => True, fun w => kindOf w ∈ [.comma, .greater, .shiftRight, .rightParen], fun _ => id⟩

/-- A look at the current token tells whether it is of this kind, whatever stands behind. -/
def View.Tells (view : View) (kind : TokenKind) : Prop :=
  ∀ {q w w'}, view.sees q → view.stops w → view.stops w' →
    (kindOf (q ++ w) = kind ↔ kindOf (q ++ w') = kind)

theorem tells_ahead (kind : TokenKind) : ahead.Tells kind := by
  intro q w w' hsees _ _
  rw [OpensAhead.kindOf_append hsees, OpensAhead.kindOf_append hsees]

theorem tells_itemEnd {kind : TokenKind} (h : kind ∉ [.comma, .greater, .shiftRight, .rightParen]) :
    itemEnd.Tells kind := by
  intro q w w' _ hw hw'
  cases q with
  | nil => exact ⟨fun hkind => absurd (hkind ▸ hw) h, fun hkind => absurd (hkind ▸ hw') h⟩
  | cons t q => exact Iff.rfl

variable {α β : Type} {view : View} {r r' : Rule α} {s : ReadState}

/-- The rule breaks. -/
def Breaks (r : Rule α) (s : ReadState) : Prop := ∃ fault, r s = .broken fault

/-- Where the first rule is read without an error in front of tokens that are seen, what stands behind
    these does not count, and the second rule does the same. -/
structure FramesAt (view : View) (r r' : Rule α) (s : ReadState) : Prop where
  keeps : Keeping r s
  frames : ∀ {a t q w}, Neatly r s a t → t.rest = q ++ w → view.sees q → view.stops w →
    ∃ p, s.rest = p ++ w ∧ view.sees p ∧ ∀ w' o, view.stops w' →
      Breaks r' (s.onto (p ++ w') o) ∨ r' (s.onto (p ++ w') o) = .done a (t.onto (q ++ w') o)

namespace FramesAt

theorem bindOf {r r' : Rule β} {f f' : β → Rule α} (h : FramesAt view r r' s)
    (hk : ∀ b t, Keeping (f b) t) (hf : ∀ b t, Neatly r s b t → FramesAt view (f b) (f' b) t) :
    FramesAt view (r >>= f) (r' >>= f') s := by
  refine ⟨h.keeps.bind hk, fun hneat hrest hsees hstops => ?_⟩
  obtain ⟨b, t, hfirst, hsecond⟩ := hneat.of_bind h.keeps hk
  obtain ⟨q', hrest', hsees', hsecond'⟩ := (hf b t hfirst).frames hsecond hrest hsees hstops
  obtain ⟨p, hp, hseesp, hfirst'⟩ := h.frames hfirst hrest' hsees' hstops
  refine ⟨p, hp, hseesp, fun w' o hstops' => ?_⟩
  rcases hfirst' w' o hstops' with ⟨fault, hbroken⟩ | hdone
  · exact Or.inl ⟨fault, bind_of_broken hbroken⟩
  · unfold Breaks
    rw [bind_of_done hdone]
    exact hsecond' w' o hstops'

theorem bind {r r' : Rule β} {f f' : β → Rule α} (h : FramesAt view r r' s)
    (hf : ∀ b t, FramesAt view (f b) (f' b) t) : FramesAt view (r >>= f) (r' >>= f') s :=
  h.bindOf (fun b t => (hf b t).keeps) fun b t _ => hf b t

theorem pure (a : α) (s : ReadState) : FramesAt view (pure a) (pure a) s := by
  refine ⟨.refl s, fun hneat hrest hsees _ => ?_⟩
  cases hneat.done
  exact ⟨_, hrest, hsees, fun _ _ _ => Or.inr rfl⟩

theorem map {r r' : Rule β} (f : β → α) (h : FramesAt view r r' s) :
    FramesAt view (f <$> r) (f <$> r') s :=
  h.bind fun b t => pure (f b) t

/-- Nothing has to be shown of a rule that is not read without an error. -/
theorem of_not_neatly (hkeeps : Keeping r s) (h : ∀ a t, ¬ Neatly r s a t) : FramesAt view r r' s :=
  ⟨hkeeps, fun hneat => absurd hneat (h _ _)⟩

theorem failHere (cause : SyntaxError.Cause) (s : ReadState) :
    FramesAt view (Rule.failHere cause : Rule α) r' s :=
  .of_not_neatly ⟨.refl s, rfl⟩ fun _ _ hneat => by cases hneat.done

theorem breakWith (fault : Fault) (r' : Rule α) (s : ReadState) :
    FramesAt view (Rule.breakWith fault) r' s :=
  .of_not_neatly trivial fun _ _ hneat => by cases hneat.done

theorem onFuel {f : Nat → Rule α} (fuel : Nat) (hzero : f 0 = Rule.breakWith .exhausted)
    (h : ∀ fuel, FramesAt view r (f (fuel + 1)) s) : FramesAt view r (f fuel) s := by
  cases fuel with
  | zero =>
    refine ⟨(h 0).keeps, fun hneat hrest hsees hstops => ?_⟩
    obtain ⟨p, hp, hseesp, _⟩ := (h 0).frames hneat hrest hsees hstops
    refine ⟨p, hp, hseesp, fun w' o _ => Or.inl ⟨.exhausted, ?_⟩⟩
    rw [hzero]
    rfl
  | succ fuel => exact h fuel

theorem ite {c c' : Prop} [Decidable c] [Decidable c'] {r₁ r₂ r₁' r₂' : Rule α} (hc : c ↔ c')
    (h : c → FramesAt view r₁ r₁' s) (h' : ¬ c → FramesAt view r₂ r₂' s) :
    FramesAt view (if c then r₁ else r₂) (if c' then r₁' else r₂') s := by
  by_cases hcase : c
  · rw [if_pos hcase, if_pos (hc.mp hcase)]
    exact h hcase
  · rw [if_neg hcase, if_neg fun h => hcase (hc.mpr h)]
    exact h' hcase

/-! ## Rules that do not look at the row -/

/-- What does not look at the row does the same in front of any tokens. -/
theorem of_blind (hkeeps : Keeping r s) (hrest : ∀ {a t}, r s = .done a t → t.rest = s.rest)
    (h : ∀ {a t us o}, r s = .done a t → r' (s.onto us o) = .done a (t.onto us o)) :
    FramesAt view r r' s := by
  refine ⟨hkeeps, fun hneat hq hsees _ => ?_⟩
  rw [hrest hneat.done] at hq
  exact ⟨_, hq, hsees, fun w' o _ => Or.inr (h hneat.done)⟩

theorem leaf (kind : NodeKind) (span : Span) (s : ReadState) :
    FramesAt view (Rule.leaf kind span) (Rule.leaf kind span) s := by
  have hcases : ∀ {a t}, Rule.leaf kind span s = .done a t → t.rest = s.rest ∧
      ∀ us o, Rule.leaf kind span (s.onto us o) = .done a (t.onto us o) := by
    intro a t h
    unfold Rule.leaf modifyOrBreak at h ⊢
    simp only [NodeStack.fresh, ReadState.onto_nodes] at h ⊢
    cases ha : NodeStack.attach _ _ with
    | error fault => rw [ha] at h; cases h
    | ok nodes =>
      rw [ha] at h
      cases h
      exact ⟨rfl, fun us o => rfl⟩
  exact .of_blind (AgreeAt.keeping_leaf kind span s) (fun h => (hcases h).1)
    fun h => (hcases h).2 _ _

theorem leafFrom (kind : NodeKind) (start : Nat) (s : ReadState) :
    FramesAt view (Rule.leafFrom kind start) (Rule.leafFrom kind start) s := by
  have hkeeps : Keeping (Rule.leafFrom kind start) s :=
    keeping_of_agreeAt (AgreeAt.leafFrom rfl start start s s)
  cases hspan : Span.between start s.lastEnd with
  | error fault =>
    refine .of_not_neatly hkeeps fun a t hneat => ?_
    have hdone := hneat.done
    simp only [Rule.leafFrom, Rule.bind_state, hspan] at hdone
    cases hdone
  | ok span =>
    have hself : Rule.leafFrom kind start s = Rule.leaf kind span s := by
      simp only [Rule.leafFrom, Rule.bind_state, hspan]
    refine ⟨hkeeps, fun hneat hrest hsees hstops => ?_⟩
    obtain ⟨p, hp, hseesp, hrun⟩ :=
      (leaf kind span s).frames ⟨hself ▸ hneat.done, hneat.errors⟩ hrest hsees hstops
    refine ⟨p, hp, hseesp, fun w' o hstops' => ?_⟩
    have hother : Rule.leafFrom kind start (s.onto (p ++ w') o) =
        Rule.leaf kind span (s.onto (p ++ w') o) := by
      simp only [Rule.leafFrom, Rule.bind_state, ReadState.onto_lastEnd, hspan]
    unfold Breaks
    rw [hother]
    exact hrun w' o hstops'

theorem setKind (kind : NodeKind) (s : ReadState) :
    FramesAt view (Rule.setKind kind) (Rule.setKind kind) s :=
  .of_blind (.of_eq rfl rfl rfl) (fun h => by cases h; rfl) fun h => by cases h; rfl

theorem enter (inOptional : Bool) (s : ReadState) :
    FramesAt view (modify fun s => { s with inOptional }) (modify fun s => { s with inOptional }) s :=
  .of_blind (.of_eq rfl rfl rfl) (fun h => by cases h; rfl) fun h => by cases h; rfl

/-! ## Reading tokens -/

/-- What reads the current token without a look at others reads it in front of anything. -/
theorem of_advance (hkeeps : Keeping r s) (h : ∀ {a t}, r s = .done a t →
    ∃ y rest, s.rest = y :: rest ∧ t = s.past [y] rest ∧
      ∀ us o, r' (s.onto (y :: us) o) = .done a ((s.onto (y :: us) o).past [y] us)) :
    FramesAt view r r' s := by
  refine ⟨hkeeps, fun {a t q w} hneat hrest hsees _ => ?_⟩
  obtain ⟨y, rest, hs, rfl, hrun⟩ := h hneat.done
  rw [ReadState.past_rest] at hrest
  refine ⟨y :: q, by rw [hs, hrest]; rfl, view.cons y hsees, fun w' o _ => Or.inr ?_⟩
  exact hrun (q ++ w') o

theorem identifier (cause : SyntaxError.Cause) (s : ReadState) :
    FramesAt view (Rule.identifier cause) (Rule.identifier cause) s := by
  refine .of_advance (.identifier cause s) fun h => ?_
  unfold Rule.identifier at h ⊢
  by_cases hc : s.current = .identifier
  · rw [if_pos hc] at h
    cases h
    obtain ⟨y, rest, hs, hk⟩ := ReadState.exists_cons_of_current hc (by decide)
    rw [ReadState.currentText_of_cons hs, ReadState.currentSpan_of_cons hs]
    refine ⟨y, rest, hs, ReadState.advance_of_cons hs, fun us o => ?_⟩
    rw [if_pos (show (s.onto (y :: us) o).current = .identifier from hk)]
    rfl
  · rw [if_neg hc] at h
    cases h

theorem expect {kind : TokenKind} (hkind : kind ≠ .endOfFile) (cause : SyntaxError.Cause)
    (s : ReadState) : FramesAt view (Rule.expect kind cause) (Rule.expect kind cause) s := by
  refine .of_advance (.expect kind cause s) fun h => ?_
  unfold Rule.expect at h ⊢
  by_cases hc : s.current = kind
  · rw [if_pos hc] at h
    cases h
    obtain ⟨y, rest, hs, hk⟩ := ReadState.exists_cons_of_current hc hkind
    rw [ReadState.currentSpan_of_cons hs]
    refine ⟨y, rest, hs, ReadState.advance_of_cons hs, fun us o => ?_⟩
    rw [if_pos (show (s.onto (y :: us) o).current = kind from hk)]
    rfl
  · rw [if_neg hc] at h
    cases h

theorem expectLeaf {kind : TokenKind} (hkind : kind ≠ .endOfFile) (cause : SyntaxError.Cause)
    (node : NodeKind) (s : ReadState) : FramesAt view (Rule.expect kind cause >>= Rule.leaf node)
      (Rule.expect kind cause >>= Rule.leaf node) s :=
  (expect hkind cause s).bind fun span t => leaf node span t

theorem eat {kind : TokenKind} (hkind : kind ≠ .endOfFile) (htells : view.Tells kind)
    (s : ReadState) : FramesAt view (Rule.eat kind) (Rule.eat kind) s := by
  have hkeeps : Keeping (Rule.eat kind) s :=
    ends_eat.mpr ⟨fun _ => .of_reads (.advance s), fun _ => .refl s⟩
  by_cases hc : s.current = kind
  · refine .of_advance hkeeps fun h => ?_
    unfold Rule.eat at h ⊢
    rw [if_pos hc] at h
    cases h
    obtain ⟨y, rest, hs, hk⟩ := ReadState.exists_cons_of_current hc hkind
    refine ⟨y, rest, hs, ReadState.advance_of_cons hs, fun us o => ?_⟩
    rw [if_pos (show (s.onto (y :: us) o).current = kind from hk)]
    rfl
  · refine ⟨hkeeps, fun hneat hrest hsees hstops => ?_⟩
    have hdone := hneat.done
    unfold Rule.eat at hdone ⊢
    rw [if_neg hc] at hdone
    cases hdone
    refine ⟨_, hrest, hsees, fun w' o hstops' => Or.inr ?_⟩
    have hother : (s.onto (_ ++ w') o).current ≠ kind := fun h => hc <| by
      rw [ReadState.current, hrest]
      exact (htells hsees hstops hstops').mpr h
    rw [if_neg hother]

/-! ## Rules that fill a slot or note an error -/

theorem recover (h : FramesAt view r r' s) (sync : TokenKind → Bool) :
    FramesAt view (Rule.recover r sync) (Rule.recover r' sync) s := by
  refine ⟨h.keeps.recover sync, fun hneat hrest hsees hstops => ?_⟩
  obtain ⟨a, rfl, hfirst⟩ := hneat.of_recover h.keeps
  obtain ⟨p, hp, hseesp, hrun⟩ := h.frames hfirst hrest hsees hstops
  refine ⟨p, hp, hseesp, fun w' o hstops' => (hrun w' o hstops').imp ?_ fun hdone => ?_⟩
  · rintro ⟨fault, hbroken⟩
    refine ⟨fault, ?_⟩
    unfold Rule.recover
    rw [hbroken]
  · unfold Rule.recover
    rw [hdone]

theorem rescue {r₁ r₁' : Rule α} (h : FramesAt view r r' s) (hkeeps : Keeping r₁ s)
    (hrescues : Rescues r₁ r) (hrescues' : Rescues r₁' r') : FramesAt view r₁ r₁' s := by
  refine ⟨hkeeps, fun hneat hrest hsees hstops => ?_⟩
  obtain ⟨p, hp, hseesp, hrun⟩ :=
    h.frames (hneat.of_rescues hrescues h.keeps) hrest hsees hstops
  refine ⟨p, hp, hseesp, fun w' o hstops' => (hrun w' o hstops').imp ?_ hrescues'.done⟩
  rintro ⟨fault, hbroken⟩
  exact ⟨fault, hrescues'.broken hbroken⟩

/-! ## In front of an opening delimiter -/

/-- The second state is the first one, or it stands at the same place in front of an opening
    delimiter that both rows show. -/
inductive Looks (s : ReadState) : ReadState → Prop where
  | refl : Looks s s
  | onto {p w : List Token} (row : s.rest = p ++ w) (opens : OpensAhead p) (w' : List Token)
      (o : ReadState) : Looks s (s.onto (p ++ w') o)

namespace Looks

variable {s' : ReadState}

theorem inOptional_eq (h : Looks s s') : s'.inOptional = s.inOptional := by
  cases h <;> rfl

theorem current_eq (h : Looks s s') : s'.current = s.current := by
  cases h with
  | refl => rfl
  | onto hrow hopens w' o =>
    unfold ReadState.current
    rw [hrow, hopens.kindOf_append]
    exact hopens.kindOf_append w'

theorem currentSpan_eq (h : Looks s s') : s'.currentSpan = s.currentSpan := by
  cases h with
  | refl => rfl
  | onto hrow hopens w' o =>
    obtain ⟨t, ts, rfl⟩ := hopens.exists_cons
    exact (ReadState.currentSpan_of_cons rfl).trans (ReadState.currentSpan_of_cons hrow).symm

theorem lastEnd_eq (h : Looks s s') : s'.lastEnd = s.lastEnd := by
  cases h <;> rfl

/-- No list opens at a word or a sign, so the token behind it is in common, too. -/
theorem second_eq (h : Looks s s') (hl : s.current ≠ .less) (hp : s.current ≠ .leftParen) :
    s'.second = s.second := by
  cases h with
  | refl => rfl
  | @onto p w hrow hopens w' o =>
    obtain ⟨t, ts, rfl⟩ := hopens.exists_cons
    rw [ReadState.current_of_cons hrow] at hl hp
    have hnext := hopens.of_cons hl hp
    unfold ReadState.second
    rw [hrow]
    exact (hnext.kindOf_append w').trans (hnext.kindOf_append w).symm

theorem third_eq (h : Looks s s') (hl : s.current ≠ .less) (hp : s.current ≠ .leftParen)
    (hl' : s.second ≠ .less) (hp' : s.second ≠ .leftParen) : s'.third = s.third := by
  cases h with
  | refl => rfl
  | @onto p w hrow hopens w' o =>
    obtain ⟨t, ts, rfl⟩ := hopens.exists_cons
    rw [ReadState.current_of_cons hrow] at hl hp
    obtain ⟨u, us, rfl⟩ := (hopens.of_cons hl hp).exists_cons
    have hsecond : s.second = u.kind := by
      unfold ReadState.second
      rw [hrow]
      rfl
    rw [hsecond] at hl' hp'
    have hnext := (hopens.of_cons hl hp).of_cons hl' hp'
    unfold ReadState.third
    rw [hrow]
    exact (hnext.kindOf_append w').trans (hnext.kindOf_append w).symm

end Looks

theorem state {f f' : ReadState → Rule α} (h : ∀ s', Looks s s' → FramesAt ahead (f s) (f' s') s) :
    FramesAt ahead (Rule.state >>= f) (Rule.state >>= f') s := by
  refine ⟨(h s .refl).keeps, fun hneat hrest hsees hstops => ?_⟩
  obtain ⟨p, hp, hseesp, _⟩ := (h s .refl).frames hneat.of_state hrest hsees hstops
  refine ⟨p, hp, hseesp, fun w' o hstops' => ?_⟩
  obtain ⟨p', hp', _, hrun⟩ := (h _ (.onto hp hseesp w' o)).frames hneat.of_state hrest hsees hstops
  obtain rfl : p' = p := List.append_cancel_right (hp'.symm.trans hp)
  exact hrun w' o hstops'

theorem advance (s : ReadState) : FramesAt ahead Rule.advance Rule.advance s := by
  refine ⟨.of_reads (.advance s), fun hneat hrest hsees _ => ?_⟩
  cases hneat.done
  cases hs : s.rest with
  | nil =>
    rw [ReadState.advance_of_nil hs, hs] at hrest
    obtain ⟨_, ht, _⟩ := hsees
    rw [(List.append_eq_nil_iff.mp hrest.symm).1] at ht
    cases ht
  | cons y rest =>
    rw [ReadState.advance_of_cons hs, ReadState.past_rest] at hrest
    refine ⟨y :: _, by rw [hrest]; rfl, ahead.cons y hsees, fun w' o _ => Or.inr ?_⟩
    rw [ReadState.currentSpan_of_cons hs, ReadState.advance_of_cons hs]
    rfl

/-- A leaf over the current token. -/
theorem advanceLeaf (node : TokenKind → NodeKind) (s : ReadState) :
    FramesAt ahead (do
        let kind := (← Rule.state).current
        Rule.leaf (node kind) (← Rule.advance)) (do
        let kind := (← Rule.state).current
        Rule.leaf (node kind) (← Rule.advance)) s := by
  refine state fun s' hlooks => ?_
  rw [hlooks.current_eq]
  exact (advance s).bind fun span t => leaf _ span t

theorem keywordHere (s : ReadState) : FramesAt ahead Rule.keywordHere Rule.keywordHere s :=
  advanceLeaf _ s

theorem punctuationHere (s : ReadState) :
    FramesAt ahead Rule.punctuationHere Rule.punctuationHere s :=
  advanceLeaf _ s

/-- A change that only reads is framed if it reads as many tokens in front of anything. -/
theorem modify {change change' : ReadState → ReadState} (hkeeps : Keeps s (change s))
    (h : ∀ {q w}, (change s).rest = q ++ w → OpensAhead q → ∃ p, s.rest = p ++ w ∧ OpensAhead p ∧
      ∀ w' o, change' (s.onto (p ++ w') o) = (change s).onto (q ++ w') o) :
    FramesAt ahead (Rule.modify change) (Rule.modify change') s := by
  refine ⟨hkeeps, fun hneat hrest hsees _ => ?_⟩
  cases hneat.done
  obtain ⟨p, hp, hseesp, hrun⟩ := h hrest hsees
  exact ⟨p, hp, hseesp, fun w' o _ => Or.inr (congrArg (Outcome.done ()) (hrun w' o))⟩

/-- A test of the first token alone. -/
def SeesFirst (go : List Token → Bool) : Prop := ∀ t ts us, go (t :: ts) = go (t :: us)

theorem readWhile_onto {go : List Token → Bool} (hgo : SeesFirst go) {q w : List Token}
    (hrest : (s.readWhile go).rest = q ++ w) (hsees : OpensAhead q) : ∃ front, s.rest = front ++ (q ++ w) ∧
      s.readWhile go = s.past front (q ++ w) ∧ ∀ w' o, (s.onto (front ++ (q ++ w')) o).readWhile go =
        (s.past front (q ++ w)).onto (q ++ w') o := by
  obtain ⟨front, rest, hs, he, hfront, hstop⟩ := ReadState.Reads.readWhile_spec go s
  rw [he, ReadState.past_rest] at hrest
  subst hrest
  obtain ⟨t, ts, rfl⟩ := hsees.exists_cons
  refine ⟨front, hs, he, fun w' o => ?_⟩
  have hother : (s.onto (front ++ (t :: ts ++ w')) o).readWhile go =
      (s.onto (front ++ (t :: ts ++ w')) o).past front (t :: ts ++ w') := by
    refine ReadState.readWhile_of_suffixes rfl (fun before u after hu => ?_) (Or.inr ?_)
    · exact (hgo u _ _).trans (hfront before u after hu)
    · exact (hgo t _ _).trans (hstop.resolve_left (List.cons_ne_nil _ _))
  rw [hother]
  rfl

theorem readWhile {go : List Token → Bool} (hgo : SeesFirst go) (s : ReadState) :
    FramesAt ahead (Rule.modify (·.readWhile go)) (Rule.modify (·.readWhile go)) s := by
  refine modify (.of_reads (.readWhile go s)) fun {q w} hrest hsees => ?_
  obtain ⟨front, hs, he, hother⟩ := readWhile_onto hgo hrest hsees
  refine ⟨front ++ q, by rw [hs, List.append_assoc], hsees.append front, fun w' o => ?_⟩
  rw [List.append_assoc, hother, he]

theorem skipUntil (stop : TokenKind → Bool) (s : ReadState) :
    FramesAt ahead (Rule.modify (·.skipUntil stop)) (Rule.modify (·.skipUntil stop)) s :=
  readWhile (fun _ _ _ => rfl) s

/-- Skipping from inside a group to an opening delimiter gets there in front of anything. -/
theorem skipGroup_move_onto {opening closing : TokenKind} {q w ts : List Token} (hsees : OpensAhead q)
    (depth : Nat) (passed : List Token)
    (h : (ReadState.skipGroup.move opening closing s depth passed ts).rest = q ++ w) :
    ∃ p, ts = p ++ w ∧ OpensAhead p ∧ ∀ w' us o,
      ReadState.skipGroup.move opening closing (s.onto us o) depth passed (p ++ w') =
        (ReadState.skipGroup.move opening closing s depth passed ts).onto (q ++ w') o := by
  induction ts generalizing depth passed with
  | nil =>
    obtain ⟨_, ht, _⟩ := hsees
    rw [(List.append_eq_nil_iff.mp (show [] = q ++ w from h).symm).1] at ht
    cases ht
  | cons t ts ih =>
    -- The group goes on behind the token, or it ends with it.
    have further : ∀ depth', (∀ s ts, ReadState.skipGroup.move opening closing s depth passed (t :: ts) =
        ReadState.skipGroup.move opening closing s depth' (t :: passed) ts) → ∃ p,
          t :: ts = p ++ w ∧ OpensAhead p ∧ ∀ w' us o,
            ReadState.skipGroup.move opening closing (s.onto us o) depth passed (p ++ w') =
              (ReadState.skipGroup.move opening closing s depth passed (t :: ts)).onto (q ++ w') o := by
      intro depth' hnext
      rw [hnext] at h
      obtain ⟨p, rfl, hp, hrun⟩ := ih depth' (t :: passed) h
      refine ⟨t :: p, rfl, hp.cons t, fun w' us o => ?_⟩
      rw [List.cons_append, hnext, hnext]
      exact hrun w' us o
    by_cases hopen : t.kind = opening
    · exact further _ fun s ts => by rw [ReadState.skipGroup_move_cons, if_pos hopen]
    by_cases hclose : t.kind = closing
    · by_cases hdepth : depth ≤ 1
      · have hlast : ∀ s ts, ReadState.skipGroup.move opening closing s depth passed (t :: ts) =
            { s with passed := t :: passed, rest := ts } := fun s ts => by
          rw [ReadState.skipGroup_move_cons, if_neg hopen, if_pos hclose, if_pos hdepth]
        rw [hlast] at h
        obtain rfl : ts = q ++ w := h
        refine ⟨t :: q, rfl, hsees.cons t, fun w' us o => ?_⟩
        rw [List.cons_append, hlast, hlast]
        rfl
      · exact further _ fun s ts => by
          rw [ReadState.skipGroup_move_cons, if_neg hopen, if_pos hclose, if_neg hdepth]
    · exact further _ fun s ts => by rw [ReadState.skipGroup_move_cons, if_neg hopen, if_neg hclose]

/-- A group that ends in front of an opening delimiter ends there in front of anything. -/
theorem optionalGroup_onto {opening closing : TokenKind} {q w : List Token}
    (hrest : (AgreeAt.optionalGroup opening closing s).rest = q ++ w) (hsees : OpensAhead q) :
    ∃ p, s.rest = p ++ w ∧ OpensAhead p ∧ ∀ w' o, AgreeAt.optionalGroup opening closing
      (s.onto (p ++ w') o) = (AgreeAt.optionalGroup opening closing s).onto (q ++ w') o := by
  by_cases hc : s.current = opening
  · rw [AgreeAt.optionalGroup, if_pos hc] at hrest
    obtain ⟨p, hp, hseesp, hrun⟩ := skipGroup_move_onto hsees 0 s.passed hrest
    refine ⟨p, hp, hseesp, fun w' o => ?_⟩
    have hother : (s.onto (p ++ w') o).current = opening := by
      rw [ReadState.onto_current, hseesp.kindOf_append, ← hseesp.kindOf_append w, ← hp]
      exact hc
    unfold AgreeAt.optionalGroup
    rw [if_pos hc, if_pos hother]
    exact hrun w' _ o
  · rw [AgreeAt.optionalGroup, if_neg hc] at hrest
    refine ⟨q, hrest, hsees, fun w' o => ?_⟩
    have hother : (s.onto (q ++ w') o).current ≠ opening := by
      rw [ReadState.onto_current, hsees.kindOf_append, ← hsees.kindOf_append w, ← hrest]
      exact hc
    unfold AgreeAt.optionalGroup
    rw [if_neg hc, if_neg hother]

/-! ## Nodes -/

/-- Closing a node does not look at the row. -/
theorem closeNode_onto {start position depth : Nat} {t u : ReadState} (us : List Token) (o : ReadState)
    (h : closeNode start position depth t = .ok u) :
    closeNode start position depth (t.onto us o) = .ok (u.onto us o) := by
  obtain ⟨n, parent, outer, range, hopened, hdepth, hrange, rfl⟩ := closeNode_cases h
  exact closeNode_of_opened (s := t.onto us o) hopened hdepth hrange

theorem withNode {kind : NodeKind} (h : FramesAt ahead r r' { s with nodes := s.nodes.begin kind }) :
    FramesAt ahead (Rule.withNode kind r) (Rule.withNode kind r') s := by
  refine ⟨.withNode h.keeps, fun {a u q w} hneat hrest hsees hstops => ?_⟩
  obtain ⟨t, hinner, hclose⟩ := hneat.of_withNode
  have ht : t.rest = q ++ w := by
    obtain ⟨_, _, _, _, _, _, _, rfl⟩ := closeNode_cases hclose
    exact hrest
  obtain ⟨p, hp, hseesp, hrun⟩ := h.frames hinner ht hsees hstops
  refine ⟨p, hp, hseesp, fun w' o hstops' => ?_⟩
  have hspan : (s.onto (p ++ w') o).currentSpan = s.currentSpan :=
    (Looks.onto hp hseesp w' o).currentSpan_eq
  refine (hrun w' o hstops').imp ?_ fun hdone => ?_
  · rintro ⟨fault, hbroken⟩
    refine ⟨fault, ?_⟩
    unfold Rule.withNode
    rw [show r' { s.onto (p ++ w') o with nodes := (s.onto (p ++ w') o).nodes.begin kind } =
      .broken fault from hbroken]
  · unfold Rule.withNode
    rw [show r' { s.onto (p ++ w') o with nodes := (s.onto (p ++ w') o).nodes.begin kind } =
      .done a (t.onto (q ++ w') o) from hdone, hspan]
    have hclosed : closeNode s.currentSpan.start (s.onto (p ++ w') o).position
        (s.onto (p ++ w') o).nodes.depth (t.onto (q ++ w') o) = .ok (u.onto (q ++ w') o) :=
      closeNode_onto _ o hclose
    simp only [hclosed]

/-! ## Lists -/

/-- A double bracket of which the halves are known is taken apart into these. -/
theorem splitShiftRight_of_halves {s : ReadState} {d a b : Token} {rest : List Token}
    (hs : s.rest = d :: rest) (hv : Halves d a b) :
    s.splitShiftRight = .ok { s with rest := a :: b :: rest } := by
  have hlt : d.span.start < d.span.stop := by
    have h₁ := hv.second_start
    have h₂ := hv.second_stop
    have h₃ := b.span.start_le_stop
    omega
  obtain ⟨a', b', hv', hsplit⟩ := ReadState.splitShiftRight_of_cons hs hv.kind hlt
  obtain ⟨rfl, rfl⟩ := hv.unique hv'
  exact hsplit

theorem splitCloser (closing : TokenKind) (s : ReadState) :
    FramesAt ahead (Rule.splitCloser closing) (Rule.splitCloser closing) s := by
  have hkeeps : Keeping (Rule.splitCloser closing) s :=
    keeping_of_agreeAt (AgreeAt.splitCloser closing s s)
  unfold Rule.splitCloser at hkeeps ⊢
  refine if hg : closing = .greater then ?_ else by rw [if_neg hg]; exact pure () s
  rw [if_pos hg] at hkeeps ⊢
  refine ⟨hkeeps, fun {_ t q w} hneat hrest hsees _ => ?_⟩
  have hdone := hneat.done
  unfold modifyOrBreak at hdone ⊢
  cases hsplit : s.splitShiftRight with
  | error fault => rw [hsplit] at hdone; cases hdone
  | ok u =>
    rw [hsplit] at hdone
    cases hdone
    rcases ReadState.splitShiftRight_cases hsplit with ⟨hne, rfl⟩ | ⟨d, a, b, rest, hs, hv, rfl⟩
    · refine ⟨q, hrest, hsees, fun w' o _ => Or.inr ?_⟩
      have hcurrent := (Looks.onto hrest hsees w' o).current_eq
      rw [ReadState.splitShiftRight_of_ne (by rwa [hcurrent])]
    · -- The opening delimiter stands behind both halves.
      obtain ⟨a', q₁, rfl⟩ := hsees.exists_cons
      obtain ⟨rfl, hrest₁⟩ := List.cons.inj (show a :: b :: rest = a' :: (q₁ ++ w) from hrest)
      have hsees₁ := hsees.of_cons (by rw [hv.first_kind]; decide) (by rw [hv.first_kind]; decide)
      obtain ⟨b', q₂, rfl⟩ := hsees₁.exists_cons
      obtain ⟨rfl, rfl⟩ := List.cons.inj (show b :: rest = b' :: (q₂ ++ w) from hrest₁)
      have hsees₂ := hsees₁.of_cons (by rw [hv.second_kind]; decide) (by rw [hv.second_kind]; decide)
      refine ⟨d :: q₂, hs, hsees₂.cons d, fun w' o _ => Or.inr ?_⟩
      rw [splitShiftRight_of_halves (s := s.onto (d :: q₂ ++ w') o) rfl hv]
      rfl

theorem delimiter {shown : Bool} {kind : TokenKind} (hkind : kind ≠ .endOfFile)
    (cause : SyntaxError.Cause) (s : ReadState) :
    FramesAt view (Rule.delimiter shown kind cause) (Rule.delimiter shown kind cause) s := by
  unfold Rule.delimiter
  cases shown with
  | true => exact expectLeaf hkind cause _ s
  | false => exact (expect hkind cause s).bind fun _ t => pure () t

theorem listItems {shown : Bool} {closing : TokenKind} {item : Rule α} (fuel : Nat) :
    ∀ {item' : Rule α}, (∀ s, FramesAt ahead item item' s) → ∀ fuel' due items (s : ReadState),
      FramesAt ahead (Rule.listItems shown closing item fuel due items)
        (Rule.listItems shown closing item' fuel' due items) s := by
  induction fuel with
  | zero => intro _ _ _ _ _ s; exact breakWith _ _ s
  | succ fuel ih =>
    intro item' hitem fuel' due items s
    apply FramesAt.onFuel fuel'
    · rfl
    intro fuel'
    unfold Rule.listItems
    refine (splitCloser closing s).bind fun _ s₁ => state fun s₁' hlooks => ite ?_ ?_ fun _ => ?_
    · rw [hlooks.current_eq]
    · exact fun _ => pure _ s₁
    refine (hitem s₁).bind fun a s₂ => state fun s₂' hlooks => ite ?_ (fun _ => ?_) fun _ => ?_
    · rw [hlooks.current_eq]
    · refine (advance s₂).bind fun span s₃ => ?_
      cases shown with
      | true => exact (leaf _ span s₃).bind fun _ s₄ => ih hitem fuel' true _ s₄
      | false => exact ih hitem fuel' true _ s₃
    · exact pure _ s₂

/-- What notes an error first is not read without one. -/
theorem not_neatly_report {e : SyntaxError} {t : ReadState} {a : α} (hnew : e.reported = false)
    (hkeeps : Keeping r (s.report e)) : ¬ Neatly (Rule.report e >>= fun _ => r) s a t := by
  intro hneat
  have hle := (hkeeps.of_done (show r (s.report e) = .done a t from hneat.done)).errors
  rw [hneat.errors, errors_report hnew] at hle
  omega

/-- What stands behind the items of a list, of which another one may have been due. -/
def listFinish (shown : Bool) (closing : TokenKind) (items : Array α) : (due : Bool) →
    Rule (List α)
  | true => do
    let s ← Rule.state
    if s.speculating then
      let _ ← (Rule.failHere .itemAfterComma : Rule Unit)
      AgreeAt.listEnd shown closing items
    else
      Rule.report (s.errorHere .itemAfterComma)
      AgreeAt.listEnd shown closing items
  | false => AgreeAt.listEnd shown closing items

theorem list_eq (shown : Bool) (opening closing : TokenKind) (item : Rule α) :
    Rule.list shown opening closing item = (do
      Rule.delimiter shown opening (.listOpening opening)
      let (items, due) ← Rule.listItems shown closing item ((← Rule.state).weight + 1) false #[]
      listFinish shown closing items due) := by
  unfold Rule.list
  congr 1; funext _; congr 1; funext s; congr 1; funext (items, due)
  cases due with
  | true => rfl
  | false => rfl

theorem keeping_listItems {item : Rule α} (hitem : ∀ s, Keeping item s) (shown : Bool)
    (closing : TokenKind) (fuel : Nat) : ∀ due (items : Array α) s,
      Keeping (Rule.listItems shown closing item fuel due items) s := by
  induction fuel with
  | zero => exact fun _ _ _ => trivial
  | succ fuel ih =>
    intro due items s
    unfold Rule.listItems
    refine (keeping_of_agreeAt (AgreeAt.splitCloser closing s s)).bind fun _ t =>
      Keeping.bind (.refl t) fun t' u => ends_ite.mpr ⟨fun _ => .refl u, fun _ => ?_⟩
    refine (hitem u).bind fun a v => Keeping.bind (.refl v) fun v' w =>
      ends_ite.mpr ⟨fun _ => Keeping.bind (.of_reads (.advance w)) fun span x => ?_, fun _ => .refl w⟩
    cases shown with
    | true => exact (AgreeAt.keeping_leaf _ span x).bind fun _ y => ih true _ y
    | false => exact ih true _ x

theorem keeping_listEnd (shown : Bool) (closing : TokenKind) (items : Array α) (s : ReadState) :
    Keeping (AgreeAt.listEnd shown closing items) s :=
  (keeping_of_agreeAt (AgreeAt.splitCloser closing s s)).bind fun _ t =>
    (keeping_of_agreeAt (AgreeAt.delimiter shown closing _ t t)).bind fun _ u => .refl u

theorem keeping_listFinish (shown : Bool) (closing : TokenKind) (items : Array α) (due : Bool)
    (s : ReadState) : Keeping (listFinish shown closing items due) s := by
  cases due with
  | true =>
    refine Keeping.bind (.refl s) fun s' t => ends_ite.mpr ⟨fun _ => ?_, fun _ => ?_⟩
    · exact Keeping.bind ⟨.refl t, rfl⟩ fun _ u => keeping_listEnd shown closing items u
    · exact Keeping.bind (.report t _) fun _ u => keeping_listEnd shown closing items u
  | false => exact keeping_listEnd shown closing items s

/-- A list is not read without an error if an item was due at its end. -/
theorem not_neatly_listFinish {shown : Bool} {closing : TokenKind} {items : Array α}
    {as : List α} {t : ReadState} : ¬ Neatly (listFinish shown closing items true) s as t := by
  intro hneat
  rcases hneat.of_state.of_ite with ⟨_, hneat⟩ | ⟨_, hneat⟩
  · obtain ⟨_, _, hdone, _⟩ := exists_of_bind hneat.done
    cases hdone
  · exact not_neatly_report rfl (keeping_listEnd shown closing items _) hneat

theorem list {shown : Bool} {opening closing : TokenKind} {item item' : Rule α}
    (hopening : opening ≠ .endOfFile) (hclosing : closing ≠ .endOfFile)
    (hitem : ∀ s, FramesAt ahead item item' s) (s : ReadState) :
    FramesAt ahead (Rule.list shown opening closing item) (Rule.list shown opening closing item')
      s := by
  rw [list_eq, list_eq]
  refine (delimiter hopening _ s).bind fun _ s₁ => state fun s₁' _ => ?_
  refine (listItems _ hitem _ _ _ s₁).bind fun (items, due) s₂ => ?_
  cases due with
  | true => exact .of_not_neatly (keeping_listFinish _ _ items true s₂) fun _ _ => not_neatly_listFinish
  | false =>
    exact (splitCloser closing s₂).bind fun _ s₃ =>
      (delimiter hclosing _ s₃).bind fun _ s₄ => pure items.toList s₄

end FramesAt

end Rule

end HeaderBridge
