/-
  Rules that cannot break. `SafeAt r s` says that the rule `r` ends from the state `s` without a
  fault and that a passage leads to where it ends. The combinators of the grammar are safe on
  sound states if the rules that they are given are. A loop is safe if its fuel is more than what
  can still be read, since each round reads something.
-/
import HeaderBridge.Proofs.Reading.Outcome
import HeaderBridge.Proofs.Reading.Passage

namespace HeaderBridge

open ReadState (kindOf weightOf)

/-- A passage on which at least one token was read for good. -/
def Onward (s s' : ReadState) : Prop := Passage s s' ∧ s.position < s'.position

namespace Onward

variable {s s' s'' : ReadState}

theorem trans_left (h : Onward s s') (h' : Passage s' s'') : Onward s s'' :=
  ⟨h.1.trans h', Nat.lt_of_lt_of_le h.2 h'.forward.position_le⟩

theorem trans_right (h : Passage s s') (h' : Onward s' s'') : Onward s s'' :=
  ⟨h.trans h'.1, Nat.lt_of_le_of_lt h.forward.position_le h'.2⟩

theorem weight_lt (h : Onward s s') : s'.weight < s.weight := h.1.forward.weight_lt h.2

end Onward

namespace Passage

variable {s s' : ReadState}

theorem advance (s : ReadState) : Passage s s.advance := .of_reads (.advance s)

theorem onward_advance {kind : TokenKind} (h : s.current = kind) (hk : kind ≠ .endOfFile) :
    Onward s s.advance := by
  obtain ⟨t, rest, hr, _⟩ := ReadState.exists_cons_of_current h hk
  rw [ReadState.advance_of_cons hr]
  exact ⟨.read hr, by simp⟩

theorem weight_le (h : Passage s s') : s'.weight ≤ s.weight := h.forward.weight_le

end Passage

namespace Rule

variable {α β : Type} {s s' : ReadState}

/-- From this state the rule does not break, and a passage leads to where it ends. -/
def SafeAt (r : Rule α) (s : ReadState) : Prop :=
  Ends False r s (fun _ s' => Passage s s') (fun _ s' => Passage s s')

/-- The same, with a token read if the rule succeeds. -/
def GainAt (r : Rule α) (s : ReadState) : Prop :=
  Ends False r s (fun _ s' => Onward s s') (fun _ s' => Passage s s')

/-- The same, with a token read wherever the rule ends. -/
def OnwardAt (r : Rule α) (s : ReadState) : Prop :=
  Ends False r s (fun _ s' => Onward s s') (fun _ s' => Onward s s')

theorem OnwardAt.safeAt {r : Rule α} (h : OnwardAt r s) : SafeAt r s :=
  h.mono (fun _ _ h => h.1) (fun _ _ h => h.1)

theorem GainAt.safeAt {r : Rule α} (h : GainAt r s) : SafeAt r s :=
  h.mono (fun _ _ h => h.1) (fun _ _ h => h)

/-- A safe rule behind a passage leads on from where the passage began. -/
theorem SafeAt.from {r : Rule α} (h : SafeAt r s') (hp : Passage s s') :
    Ends False r s' (fun _ s'' => Passage s s'') (fun _ s'' => Passage s s'') :=
  h.mono (fun _ _ h => hp.trans h) (fun _ _ h => hp.trans h)

theorem SafeAt.bind {r : Rule β} {f : β → Rule α} (h : SafeAt r s)
    (hf : ∀ b s', Passage s s' → SafeAt (f b) s') : SafeAt (r >>= f) s :=
  ends_bind.mpr (h.mono (fun b s' hp => (hf b s' hp).from hp) fun _ _ hp => hp)

theorem SafeAt.bindGain {r : Rule β} {f : β → Rule α} (h : SafeAt r s)
    (hf : ∀ b s', Passage s s' → GainAt (f b) s') : GainAt (r >>= f) s :=
  ends_bind.mpr (h.mono
    (fun b s' hp => (hf b s' hp).mono (fun _ _ h => .trans_right hp h) fun _ _ h => hp.trans h)
    fun _ _ hp => hp)

theorem GainAt.bind {r : Rule β} {f : β → Rule α} (h : GainAt r s)
    (hf : ∀ b s', Onward s s' → SafeAt (f b) s') : GainAt (r >>= f) s :=
  ends_bind.mpr (h.mono
    (fun b s' hp => (hf b s' hp).mono (fun _ _ h => hp.trans_left h) fun _ _ h => hp.1.trans h)
    fun _ _ hp => hp)

theorem OnwardAt.bind {r : Rule β} {f : β → Rule α} (h : OnwardAt r s)
    (hf : ∀ b s', Onward s s' → SafeAt (f b) s') : OnwardAt (r >>= f) s :=
  ends_bind.mpr (h.mono
    (fun b s' hp => (hf b s' hp).mono (fun _ _ h => hp.trans_left h) fun _ _ h => hp.trans_left h)
    fun _ _ hp => hp)

theorem SafeAt.pure (a : α) (s : ReadState) : SafeAt (pure a) s := .refl s

theorem SafeAt.state {f : ReadState → Rule α} (h : SafeAt (f s) s) : SafeAt (state >>= f) s :=
  ends_bind.mpr h

theorem OnwardAt.state {f : ReadState → Rule α} (h : OnwardAt (f s) s) :
    OnwardAt (Rule.state >>= f) s :=
  ends_bind.mpr h

theorem SafeAt.map {r : Rule β} (f : β → α) (h : SafeAt r s) : SafeAt (f <$> r) s :=
  ends_map.mpr h

theorem SafeAt.ite {c : Prop} [Decidable c] {r r' : Rule α} (h : c → SafeAt r s)
    (h' : ¬ c → SafeAt r' s) : SafeAt (if c then r else r') s :=
  ends_ite.mpr ⟨h, h'⟩

theorem SafeAt.modify {f : ReadState → ReadState} (h : Passage s (f s)) : SafeAt (modify f) s := h

theorem SafeAt.report (e : SyntaxError) (s : ReadState) : SafeAt (report e) s := Passage.report s e

theorem SafeAt.failHere (cause : SyntaxError.Cause) (s : ReadState) :
    SafeAt (failHere cause : Rule α) s := Passage.refl s

/-! ## Tokens -/

theorem SafeAt.advance (s : ReadState) : SafeAt advance s := Passage.advance s

theorem SafeAt.eat (kind : TokenKind) (s : ReadState) : SafeAt (eat kind) s :=
  ends_eat.mpr ⟨fun _ => .advance s, fun _ => .refl s⟩

/-- Behind a token that is read first, what follows need only be safe. -/
theorem OnwardAt.advanceThen {f : Span → Rule α} (hs : s.Sound) (hc : s.current ≠ .endOfFile)
    (hf : ∀ span s', s'.Sound → s'.weight < s.weight → SafeAt (f span) s') :
    OnwardAt (Rule.advance >>= f) s := by
  have hon := Passage.onward_advance rfl hc
  unfold OnwardAt
  simp only [ends_bind, ends_advance]
  exact (hf _ _ (hon.1.sound hs) hon.weight_lt).mono (fun _ _ h => hon.trans_left h)
    fun _ _ h => hon.trans_left h

theorem SafeAt.advanceThen {f : Span → Rule α} (hs : s.Sound) (hc : s.current ≠ .endOfFile)
    (hf : ∀ span s', s'.Sound → s'.weight < s.weight → SafeAt (f span) s') :
    SafeAt (Rule.advance >>= f) s :=
  (OnwardAt.advanceThen hs hc hf).safeAt

theorem GainAt.expect {kind : TokenKind} (hk : kind ≠ .endOfFile) (cause : SyntaxError.Cause)
    (s : ReadState) : GainAt (expect kind cause) s :=
  ends_expect.mpr ⟨fun h => Passage.onward_advance h hk, fun _ => .refl s⟩

theorem GainAt.identifier (cause : SyntaxError.Cause) (s : ReadState) :
    GainAt (identifier cause) s :=
  ends_identifier.mpr ⟨fun h => Passage.onward_advance h (by decide), fun _ => .refl s⟩

/-! ## Leaves -/

theorem Covers.single (t : Token) : Covers t.span [t] := ⟨by simp, rfl, rfl⟩

/-- A leaf over tokens that were read for it. -/
theorem onward_leaf {front rest : List Token} {span : Span} (hs : s.Sound)
    (hr : s.rest = front ++ rest) (hc : Covers span front) (kind : NodeKind) :
    Ends False (leaf kind span) (s.past front rest)
      (fun _ s' => Onward s s') (fun _ s' => Onward s s') := by
  obtain ⟨nodes, hn⟩ := NodeStack.exists_attach
    (s := (s.nodes.fresh kind).2) hs.opened { (s.nodes.fresh kind).1 with range := some span }
  have he : leaf kind span (s.past front rest) = .done () { s.past front rest with nodes } := by
    unfold leaf modifyOrBreak
    simp only [ReadState.past_nodes]
    rw [hn]
    rfl
  unfold Ends
  rw [he]
  refine ⟨.leaf hr hc hn, ?_⟩
  have hlen : 0 < front.length := List.length_pos_iff.mpr hc.ne_nil
  simp only [ReadState.position, ReadState.past_passed, List.length_append, List.length_reverse]
  omega

/-- A leaf from the first to the last of some tokens. -/
theorem onward_leafFrom {t : Token} {front rest : List Token} (hs : s.Sound)
    (hr : s.rest = t :: front ++ rest) (kind : NodeKind) :
    Ends False (leafFrom kind t.span.start) (s.past (t :: front) rest)
      (fun _ s' => Onward s s') (fun _ s' => Onward s s') := by
  have hp : Passage s (s.past (t :: front) rest) := .of_reads ⟨_, _, hr, rfl⟩
  have hle := hp.forward.start_le_lastEnd hs (by simp)
  rw [ReadState.currentSpan_of_cons (by rw [hr]; rfl)] at hle
  have hlast : (s.past (t :: front) rest).lastEnd =
      ((t :: front).getLast (by simp)).span.stop := by
    unfold ReadState.lastEnd
    rw [ReadState.past_passed]
    conv => lhs; rw [← List.dropLast_concat_getLast (l := t :: front) (by simp)]
    simp
  have hc : Covers ⟨t.span.start, (s.past (t :: front) rest).lastEnd, hle⟩ (t :: front) :=
    ⟨List.cons_ne_nil t front, rfl, hlast⟩
  unfold leafFrom
  refine ends_bind.mpr ?_
  simp only [ends_state]
  unfold Span.between
  rw [dif_pos hle]
  exact onward_leaf hs hr hc kind

/-- A token that is read for a leaf of its own. -/
theorem onward_leafHere {t : Token} {rest : List Token} (hs : s.Sound) (hr : s.rest = t :: rest)
    (kind : NodeKind) :
    Ends False (leaf kind s.currentSpan) s.advance
      (fun _ s' => Onward s s') (fun _ s' => Onward s s') := by
  rw [ReadState.advance_of_cons hr, ReadState.currentSpan_of_cons hr]
  exact onward_leaf hs hr (Covers.single t) kind

theorem OnwardAt.keywordHere (hs : s.Sound) {kind : TokenKind} (h : s.current = kind)
    (hk : kind ≠ .endOfFile) : OnwardAt keywordHere s := by
  obtain ⟨t, rest, hr, _⟩ := ReadState.exists_cons_of_current h hk
  unfold Rule.keywordHere OnwardAt
  simp only [ends_bind, ends_state, ends_advance]
  exact onward_leafHere hs hr _

theorem OnwardAt.punctuationHere (hs : s.Sound) {kind : TokenKind} (h : s.current = kind)
    (hk : kind ≠ .endOfFile) : OnwardAt punctuationHere s := by
  obtain ⟨t, rest, hr, _⟩ := ReadState.exists_cons_of_current h hk
  unfold Rule.punctuationHere OnwardAt
  simp only [ends_bind, ends_state, ends_advance]
  exact onward_leafHere hs hr _

theorem GainAt.expectLeaf (hs : s.Sound) {kind : TokenKind} (hk : kind ≠ .endOfFile)
    (cause : SyntaxError.Cause) (node : NodeKind) :
    GainAt (Rule.expect kind cause >>= fun span => leaf node span) s := by
  unfold GainAt
  simp only [ends_bind, ends_expect]
  refine ⟨fun h => ?_, fun _ => .refl s⟩
  obtain ⟨t, rest, hr, _⟩ := ReadState.exists_cons_of_current h hk
  exact (onward_leafHere hs hr node).mono (fun _ _ h => h) fun _ _ h => h.1

theorem GainAt.keyword (hs : s.Sound) {kind : TokenKind} (hk : kind ≠ .endOfFile)
    (cause : SyntaxError.Cause) : GainAt (keyword kind cause) s :=
  GainAt.expectLeaf hs hk cause _

theorem GainAt.punctuation (hs : s.Sound) {kind : TokenKind} (hk : kind ≠ .endOfFile)
    (cause : SyntaxError.Cause) : GainAt (punctuation kind cause) s :=
  GainAt.expectLeaf hs hk cause _

theorem GainAt.delimiter (hs : s.Sound) (shown : Bool) {kind : TokenKind} (hk : kind ≠ .endOfFile)
    (cause : SyntaxError.Cause) : GainAt (delimiter shown kind cause) s := by
  unfold Rule.delimiter
  cases shown with
  | true => exact GainAt.expectLeaf hs hk cause _
  | false => exact (GainAt.expect hk cause s).bind fun _ s' _ => SafeAt.pure () s'

/-! ## Recovering, trying, building -/

theorem SafeAt.recover {r : Rule α} (h : SafeAt r s) (sync : TokenKind → Bool) :
    SafeAt (recover r sync) s := by
  have hk := h
  unfold SafeAt Ends Rule.recover
  unfold SafeAt Ends at hk
  cases hr : r s with
  | done a s' => rw [hr] at hk; exact hk
  | failed e s' =>
    rw [hr] at hk
    exact (hk.trans (.report s' e)).trans (.of_reads (.skipUntil sync _))
  | broken f => rw [hr] at hk; exact hk.elim

/-- A try never fails. Without a value as many tokens are read behind it as in front of it. -/
theorem ends_attempt {r : Rule α} (h : GainAt r { s with speculating := true }) :
    Ends False (attempt r) s
      (fun a s' => Passage s s' ∧
        if a.isSome then s.position < s'.position else s'.position = s.position)
      (fun _ _ => False) := by
  unfold GainAt Ends at h
  unfold Ends attempt
  cases hr : r { s with speculating := true } with
  | done a s' => rw [hr] at h; exact ⟨.tried h.1, h.2⟩
  | failed e s' =>
    rw [hr] at h
    have hf := h.forward
    obtain ⟨nodes, hn⟩ := NodeStack.exists_restore (c := s.nodes.checkpoint) hf.depth
    obtain ⟨front, hp, _⟩ := hf.moved
    have hback := ReadState.backTo_of_passed (s := s) hp
    simp only [hn]
    refine ⟨.undone h hn, ?_⟩
    rw [hback]
    rfl
  | broken f => rw [hr] at h; exact h.elim

theorem SafeAt.attempt {r : Rule α} (h : GainAt r { s with speculating := true }) :
    SafeAt (attempt r) s :=
  (ends_attempt h).mono (fun _ _ h => h.1) fun _ _ h => h.elim

/-- A node that was opened can be closed behind every passage. -/
theorem exists_closeNode (hs : s.Sound) {kind : NodeKind}
    (hp : Passage { s with nodes := s.nodes.begin kind } s') :
    ∃ s'', closeNode s.currentSpan.start s.position s.nodes.depth s' = .ok s'' ∧
      Passage s s'' ∧ s''.position = s'.position := by
  have hf := hp.forward
  have hopen := hs.begin kind
  have hdepth : s'.nodes.depth = s.nodes.depth + 1 := hf.depth
  have hpos := hs.opened
  obtain ⟨n, parent, outer, ho⟩ : ∃ n parent outer, s'.nodes.opened = n :: parent :: outer := by
    unfold NodeStack.depth at hdepth hpos
    match ho : s'.nodes.opened with
    | [] => simp [ho] at hdepth
    | [_] => simp only [ho, List.length_singleton] at hdepth; omega
    | n :: parent :: outer => exact ⟨n, parent, outer, rfl⟩
  have hl : outer.length + 1 = s.nodes.depth := by
    simpa [NodeStack.depth, ho] using hdepth
  obtain ⟨range, hr⟩ : ∃ range, closingRange s.currentSpan.start s.position s' = .ok range := by
    unfold closingRange
    by_cases hread : s.position < s'.position
    · have hle : s.currentSpan.start ≤ s'.lastEnd := hf.start_le_lastEnd hopen hread
      rw [if_pos hread]
      unfold Span.between
      rw [dif_pos hle]
      exact ⟨_, rfl⟩
    · rw [if_neg hread]
      exact ⟨none, rfl⟩
  have hc := closeNode_of_opened ho hl hr
  exact ⟨_, hc, .node hp hc, rfl⟩

theorem SafeAt.withNode {r : Rule α} {kind : NodeKind} (hs : s.Sound)
    (h : SafeAt r { s with nodes := s.nodes.begin kind }) : SafeAt (withNode kind r) s := by
  have hk := h
  unfold SafeAt Ends Rule.withNode
  unfold SafeAt Ends at hk
  cases hr : r { s with nodes := s.nodes.begin kind } with
  | done a s' =>
    rw [hr] at hk
    obtain ⟨s'', hc, hp, _⟩ := exists_closeNode hs hk
    simp only [hc]
    exact hp
  | failed e s' =>
    rw [hr] at hk
    obtain ⟨s'', hc, hp, _⟩ := exists_closeNode hs hk
    simp only [hc]
    exact hp
  | broken f => rw [hr] at hk; exact hk.elim

theorem OnwardAt.withNode {r : Rule α} {kind : NodeKind} (hs : s.Sound)
    (h : OnwardAt r { s with nodes := s.nodes.begin kind }) : OnwardAt (withNode kind r) s := by
  have hk := h
  unfold OnwardAt Ends Rule.withNode
  unfold OnwardAt Ends at hk
  cases hr : r { s with nodes := s.nodes.begin kind } with
  | done a s' =>
    rw [hr] at hk
    obtain ⟨s'', hc, hp, hpos⟩ := exists_closeNode hs hk.1
    simp only [hc]
    exact ⟨hp, by rw [hpos]; exact hk.2⟩
  | failed e s' =>
    rw [hr] at hk
    obtain ⟨s'', hc, hp, hpos⟩ := exists_closeNode hs hk.1
    simp only [hc]
    exact ⟨hp, by rw [hpos]; exact hk.2⟩
  | broken f => rw [hr] at hk; exact hk.elim

/-! ## Lists -/

theorem SafeAt.splitCloser (hs : s.Sound) (closing : TokenKind) :
    SafeAt (splitCloser closing) s := by
  unfold Rule.splitCloser
  split
  · unfold SafeAt Ends modifyOrBreak
    by_cases hc : s.current = .shiftRight
    · obtain ⟨t, rest, hr, hk⟩ := ReadState.exists_cons_of_current hc (by decide)
      obtain ⟨upper, hall⟩ := hs.inOrder
      obtain ⟨_, _, ho⟩ := inOrder_append.mp hall
      rw [hr] at ho
      obtain ⟨a, b, hv, he⟩ := ReadState.splitShiftRight_of_cons hr hk ho.2.1
      rw [he]
      exact .halve hr hv
    · rw [ReadState.splitShiftRight_of_ne hc]
      exact .refl s
  · exact SafeAt.pure () s

/-- The items of a list, where an item is safe as long as no more than `w` can be read. -/
theorem SafeAt.listItems {shown : Bool} {closing : TokenKind} {item : Rule α} {w : Nat}
    (hitem : ∀ s', s'.Sound → s'.weight ≤ w → SafeAt item s') (fuel : Nat) :
    ∀ due items (s : ReadState), s.Sound → s.weight ≤ w → s.weight < fuel →
      SafeAt (listItems shown closing item fuel due items) s := by
  induction fuel with
  | zero => intro _ _ s _ _ h; omega
  | succ fuel ih =>
    intro due items s hs hw hfuel
    unfold Rule.listItems
    refine (SafeAt.splitCloser hs closing).bind fun _ s₁ h₁ => .state (.ite ?_ ?_)
    · exact fun _ => SafeAt.pure _ s₁
    intro _
    have hw₁ := h₁.weight_le
    refine (hitem s₁ (h₁.sound hs) (by omega)).bind fun a s₂ h₂ => .state (.ite ?_ ?_)
    · intro hcomma
      have hs₂ := (h₁.trans h₂).sound hs
      obtain ⟨t, rest, hr, _⟩ := ReadState.exists_cons_of_current hcomma (by decide)
      have hon := Passage.onward_advance hcomma (by decide)
      have hw₂ := h₂.weight_le
      -- Behind the comma less is left, whether the tree shows the comma or not.
      have next : ∀ s₃, Onward s₂ s₃ → SafeAt (Rule.listItems shown closing item fuel true
          (items.push a)) s₃ := fun s₃ h₃ => by
        have := h₃.weight_lt
        exact ih _ _ s₃ (h₃.1.sound hs₂) (by omega) (by omega)
      unfold SafeAt
      simp only [ends_bind, ends_advance, ends_ite]
      refine ⟨fun _ => ?_, fun _ => (next _ hon).from hon.1⟩
      exact (onward_leafHere hs₂ hr _).mono (fun _ s₃ h₃ => (next s₃ h₃).from h₃.1)
        fun _ _ h₃ => h₃.1
    · exact fun _ => SafeAt.pure _ s₂

/-- A list is safe if its items are safe wherever less can be read than in front of the list. -/
theorem GainAt.list {shown : Bool} {opening closing : TokenKind} {item : Rule α} (hs : s.Sound)
    (ho : opening ≠ .endOfFile) (hc : closing ≠ .endOfFile)
    (hitem : ∀ s', s'.Sound → s'.weight < s.weight → SafeAt item s') :
    GainAt (list shown opening closing item) s := by
  unfold Rule.list
  refine (GainAt.delimiter hs shown ho _).bind fun _ s₁ h₁ => .state ?_
  have hs₁ := h₁.1.sound hs
  have hw₁ := h₁.weight_lt
  have hitems : SafeAt (Rule.listItems shown closing item (s₁.weight + 1) false #[]) s₁ :=
    SafeAt.listItems (fun s' hs' hw => hitem s' hs' (Nat.lt_of_le_of_lt hw hw₁)) _ _ _ s₁ hs₁
      (Nat.le_refl _) (Nat.lt_succ_self _)
  refine hitems.bind fun found s₂ h₂ => ?_
  -- The end of the list is the same whether an item was due or not.
  have last : ∀ s₃, Passage s₂ s₃ → SafeAt (do
      Rule.splitCloser closing
      Rule.delimiter shown closing (.listClosing closing)
      pure found.1.toList) s₃ := fun s₃ h₃ => by
    have hs₃ := h₃.sound (h₂.sound hs₁)
    refine (SafeAt.splitCloser hs₃ closing).bind fun _ s₄ h₄ => ?_
    refine (GainAt.delimiter (h₄.sound hs₃) shown hc _).safeAt.bind fun _ s₅ _ => ?_
    exact SafeAt.pure _ s₅
  refine .ite (fun _ => .state (.ite (fun _ => ?_) fun _ => ?_)) fun _ => last s₂ (.refl s₂)
  · exact (SafeAt.failHere _ s₂).bind fun _ s₃ h₃ => last s₃ h₃
  · exact (SafeAt.report _ s₂).bind fun _ s₃ h₃ => last s₃ h₃

end Rule

end HeaderBridge
