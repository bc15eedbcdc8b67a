/-
  What a parser can do to its state. `Passage s s'` says that the second state is reached from the
  first by the steps of which all rules are made: reading a token, taking a double bracket apart,
  noting an error, entering a section, attaching a leaf over the tokens just read, building a node
  around a passage, and trying a passage with or without success. A property that every step keeps
  holds behind every rule of the grammar; `Passage.forward` and `Passage.sound` are of this kind.
-/
import HeaderBridge.Proofs.Reading.Halves
import HeaderBridge.Proofs.Reading.Past

namespace HeaderBridge

open ReadState (kindOf weightOf)

/-! ## Tokens in their places -/

/-- Tokens that lie one behind the other between two offsets. None is empty, and a double angle
    bracket has a byte for each half. -/
def InOrder (lower upper : Nat) : List Token → Prop
  | [] => lower ≤ upper
  | t :: ts => lower ≤ t.span.start ∧ t.span.start < t.span.stop ∧
      (t.kind = .shiftRight → t.span.stop = t.span.start + 2) ∧ InOrder t.span.stop upper ts

theorem inOrder_append {lower upper : Nat} {ts us : List Token} :
    InOrder lower upper (ts ++ us) ↔ ∃ m, InOrder lower m ts ∧ InOrder m upper us := by
  induction ts generalizing lower with
  | nil =>
    constructor
    · intro h
      exact ⟨lower, Nat.le_refl _, h⟩
    · intro ⟨m, hm, h⟩
      cases us with
      | nil => exact Nat.le_trans hm h
      | cons u us => exact ⟨Nat.le_trans hm h.1, h.2⟩
  | cons t ts ih =>
    simp only [List.cons_append, InOrder]
    rw [ih]
    constructor
    · intro ⟨h₁, h₂, h₃, m, h₄, h₅⟩
      exact ⟨m, ⟨h₁, h₂, h₃, h₄⟩, h₅⟩
    · intro ⟨m, ⟨h₁, h₂, h₃, h₄⟩, h₅⟩
      exact ⟨h₁, h₂, h₃, m, h₄, h₅⟩

theorem InOrder.of_le {lower lower' upper : Nat} {ts : List Token} (h : InOrder lower upper ts)
    (hl : lower' ≤ lower) : InOrder lower' upper ts := by
  cases ts with
  | nil => exact Nat.le_trans hl h
  | cons t ts => exact ⟨Nat.le_trans hl h.1, h.2⟩

/-- Tokens stay in order when some of them are left out. -/
theorem InOrder.filter {lower upper : Nat} {ts : List Token} (h : InOrder lower upper ts)
    (p : Token → Bool) : InOrder lower upper (ts.filter p) := by
  induction ts generalizing lower with
  | nil => exact h
  | cons t ts ih =>
    rw [List.filter_cons]
    split
    · exact ⟨h.1, h.2.1, h.2.2.1, ih h.2.2.2⟩
    · exact (ih h.2.2.2).of_le (Nat.le_trans h.1 (Nat.le_of_lt h.2.1))

theorem Halved.inOrder {lower upper : Nat} {ts us : List Token} (h : Halved ts us)
    (ho : InOrder lower upper ts) : InOrder lower upper us := by
  induction h generalizing lower with
  | nil => exact ho
  | keep t _ ih => exact ⟨ho.1, ho.2.1, ho.2.2.1, ih ho.2.2.2⟩
  | @halve ts us t a b hv _ ih =>
    obtain ⟨h₁, h₂, h₃, h₄⟩ := ho
    have hs := h₃ hv.kind
    have e₁ := hv.first_start
    have e₂ := hv.first_stop
    have e₃ := hv.second_start
    have e₄ := hv.second_stop
    refine ⟨by omega, by omega, ?_, by omega, by omega, ?_, ?_⟩
    · intro hk
      rw [hv.first_kind] at hk
      cases hk
    · intro hk
      rw [hv.second_kind] at hk
      cases hk
    · rw [e₄]
      exact ih h₄

/-- The first of some tokens in order starts before the last one ends. -/
theorem InOrder.start_lt_stop {lower upper : Nat} {t u : Token} {ts front : List Token}
    (h : InOrder lower upper ts) (ht : ts = t :: front) (hu : u ∈ ts) :
    t.span.start < u.span.stop := by
  induction front generalizing lower t ts with
  | nil =>
    subst ht
    rw [List.mem_singleton.mp hu]
    exact h.2.1
  | cons v front ih =>
    subst ht
    rcases List.mem_cons.mp hu with rfl | hu
    · exact h.2.1
    · have := ih h.2.2.2 rfl hu
      have := h.2.2.2.1
      have := h.2.1
      omega

/-- A span goes from the start of the first of some tokens to the end of the last one. -/
structure Covers (span : Span) (front : List Token) : Prop where
  ne_nil : front ≠ []
  start : span.start = (front.head ne_nil).span.start
  stop : span.stop = (front.getLast ne_nil).span.stop

/-! ## Steps -/

/-- The second state is reached from the first by the steps of which rules are made. -/
inductive Passage : ReadState → ReadState → Prop where
  | refl (s : ReadState) : Passage s s
  | trans {s s' s'' : ReadState} (first : Passage s s') (second : Passage s' s'') : Passage s s''
  | read {s : ReadState} {t : Token} {rest : List Token} (tokens : s.rest = t :: rest) :
      Passage s (s.past [t] rest)
  | halve {s : ReadState} {t a b : Token} {rest : List Token} (tokens : s.rest = t :: rest)
      (halves : Halves t a b) : Passage s { s with rest := a :: b :: rest }
  | report (s : ReadState) (e : SyntaxError) : Passage s (s.report e)
  | enter (s : ReadState) (inOptional : Bool) : Passage s { s with inOptional }
  | setKind (s : ReadState) (kind : NodeKind) :
      Passage s { s with nodes := s.nodes.update fun n => { n with kind } }
  /-- A leaf over tokens that are read for it. -/
  | leaf {s : ReadState} {front rest : List Token} {kind : NodeKind} {span : Span}
      {nodes : NodeStack} (tokens : s.rest = front ++ rest) (covers : Covers span front)
      (attached : (s.nodes.fresh kind).2.attach
        { (s.nodes.fresh kind).1 with range := some span } = .ok nodes) :
      Passage s { s.past front rest with nodes }
  | node {s s₁ s₂ : ReadState} {kind : NodeKind}
      (inner : Passage { s with nodes := s.nodes.begin kind } s₁)
      (closed : Rule.closeNode s.currentSpan.start s.position s.nodes.depth s₁ = .ok s₂) :
      Passage s s₂
  | tried {s s₁ : ReadState} (inner : Passage { s with speculating := true } s₁) :
      Passage s { s₁ with speculating := s.speculating }
  | undone {s s₁ : ReadState} {nodes : NodeStack}
      (inner : Passage { s with speculating := true } s₁)
      (restored : s₁.nodes.restore s.nodes.checkpoint = .ok nodes) :
      Passage s { s₁.backTo s.position with nodes, speculating := s.speculating }

theorem Passage.of_reads {s s' : ReadState} (h : s.Reads s') : Passage s s' := by
  obtain ⟨front, rest, hr, rfl⟩ := h
  induction front generalizing s with
  | nil => rw [← show s.rest = rest from hr]; exact .refl s
  | cons t front ih =>
    have := ih (s := s.past [t] (front ++ rest)) rfl
    rw [ReadState.past_past] at this
    exact .trans (.read hr) this

/-! ## The stack of nodes -/

namespace NodeStack

theorem depth_update (s : NodeStack) (f : Node → Node) : (s.update f).depth = s.depth := by
  unfold update depth
  split
  · next h => rw [h]
  · next h => rw [h]; rfl

theorem nextId_update (s : NodeStack) (f : Node → Node) : (s.update f).nextId = s.nextId := by
  unfold update
  split <;> rfl

/-- A node is attached to the innermost open one. -/
theorem attach_cases {s s' : NodeStack} {child : Node} (h : s.attach child = .ok s') :
    ∃ n outer, s.opened = n :: outer ∧ s' = { s with opened := withChild n child :: outer } := by
  unfold attach at h
  split at h
  · cases h
  · next n outer ho =>
    cases h
    exact ⟨n, outer, ho, rfl⟩

theorem depth_attach {s s' : NodeStack} {n : Node} (h : s.attach n = .ok s') :
    s'.depth = s.depth := by
  obtain ⟨m, outer, ho, rfl⟩ := attach_cases h
  simp [depth, ho]

theorem exists_attach {s : NodeStack} (h : 0 < s.depth) (n : Node) : ∃ s', s.attach n = .ok s' := by
  unfold attach
  split
  · next ho => simp [depth, ho] at h
  · exact ⟨_, rfl⟩

theorem depth_begin (s : NodeStack) (kind : NodeKind) : (s.begin kind).depth = s.depth + 1 := rfl

theorem depth_restore {s s' : NodeStack} {c : Checkpoint} (h : s.restore c = .ok s') :
    s'.depth = s.depth := by
  unfold restore at h
  split at h
  · cases h
    exact depth_update s _
  · cases h

theorem exists_restore {s : NodeStack} {c : Checkpoint} (h : s.depth = c.depth) :
    ∃ s', s.restore c = .ok s' := by
  unfold restore
  rw [if_pos h]
  exact ⟨_, rfl⟩

end NodeStack

/-- Closing attaches the innermost open node, with its range, to the node around it. -/
theorem Rule.closeNode_of_opened {start position depth : Nat} {s : ReadState}
    {n parent : Node} {outer : List Node} {range : Option Span}
    (ho : s.nodes.opened = n :: parent :: outer) (hd : outer.length + 1 = depth)
    (hr : Rule.closingRange start position s = .ok range) :
    Rule.closeNode start position depth s = .ok { s with nodes :=
      { s.nodes with opened := NodeStack.withChild parent { n with range } :: outer } } := by
  have hdepth : s.nodes.depth = depth + 1 := by
    simp [NodeStack.depth, ho, ← hd]
  unfold Rule.closeNode
  rw [if_neg (by simpa using hdepth), hr]
  simp only [NodeStack.update, ho, NodeStack.close]
  rfl

theorem Rule.closeNode_cases {start position depth : Nat} {s s' : ReadState}
    (h : Rule.closeNode start position depth s = .ok s') :
    ∃ n parent outer range, s.nodes.opened = n :: parent :: outer ∧ outer.length + 1 = depth ∧
      Rule.closingRange start position s = .ok range ∧ s' = { s with nodes :=
        { s.nodes with opened := NodeStack.withChild parent { n with range } :: outer } } := by
  have h' := h
  unfold Rule.closeNode at h'
  by_cases hd : s.nodes.depth = depth + 1
  · rw [if_neg (by simpa using hd)] at h'
    cases hr : Rule.closingRange start position s with
    | error f => rw [hr] at h'; cases h'
    | ok range =>
      cases ho : s.nodes.opened with
      | nil => simp [NodeStack.depth, ho] at hd
      | cons n outer =>
        cases outer with
        | nil =>
          rw [hr] at h'
          simp only [NodeStack.update, ho, NodeStack.close] at h'
          cases h'
        | cons parent outer =>
          have hl : outer.length + 1 = depth := by
            simpa [NodeStack.depth, ho] using hd
          rw [closeNode_of_opened ho hl hr] at h
          exact ⟨n, parent, outer, range, rfl, hl, rfl, (Except.ok.inj h).symm⟩
  · rw [if_pos hd] at h'
    cases h'

/-! ## What every passage keeps -/

/-- The second state is not behind the first: some more tokens were read, and as many nodes are
    open. -/
structure Forward (s s' : ReadState) : Prop where
  moved : ∃ front, s'.passed = front.reverse ++ s.passed ∧ Halved s.rest (front ++ s'.rest)
  sourceLength : s'.sourceLength = s.sourceLength
  depth : s'.nodes.depth = s.nodes.depth

namespace Forward

variable {s s' s'' : ReadState}

theorem refl (s : ReadState) : Forward s s := ⟨⟨[], rfl, Halved.refl _⟩, rfl, rfl⟩

theorem trans (h : Forward s s') (h' : Forward s' s'') : Forward s s'' := by
  obtain ⟨front, hp, hr⟩ := h.moved
  obtain ⟨front', hp', hr'⟩ := h'.moved
  refine ⟨⟨front ++ front', ?_, ?_⟩, h'.sourceLength.trans h.sourceLength,
    h'.depth.trans h.depth⟩
  · rw [hp', hp, List.reverse_append, List.append_assoc]
  · rw [List.append_assoc]
    exact hr.trans ((Halved.refl front).append hr')

theorem weight_le (h : Forward s s') : s'.weight ≤ s.weight := by
  obtain ⟨front, _, hr⟩ := h.moved
  have hw := hr.weightOf_eq
  rw [weightOf_append] at hw
  unfold ReadState.weight
  omega

theorem position_le (h : Forward s s') : s.position ≤ s'.position := by
  obtain ⟨front, hp, _⟩ := h.moved
  simp [ReadState.position, hp]

/-- Where a token was read, less is left. -/
theorem weight_lt (h : Forward s s') (hp : s.position < s'.position) : s'.weight < s.weight := by
  obtain ⟨front, he, hr⟩ := h.moved
  have hw := hr.weightOf_eq
  rw [weightOf_append] at hw
  have hne : front ≠ [] := by
    rintro rfl
    simp [ReadState.position, he] at hp
  have := weightOf_pos hne
  unfold ReadState.weight
  omega

end Forward

theorem Passage.forward {s s' : ReadState} (h : Passage s s') : Forward s s' := by
  induction h with
  | refl s => exact Forward.refl s
  | trans _ _ ih ih' => exact ih.trans ih'
  | @read s t rest hr => exact ⟨⟨[t], rfl, by rw [hr]; exact Halved.refl _⟩, rfl, rfl⟩
  | @halve s t a b rest hr hv =>
    exact ⟨⟨[], rfl, by rw [hr]; exact .halve hv (Halved.refl rest)⟩, rfl, rfl⟩
  | report s e =>
    unfold ReadState.report
    split
    · exact Forward.refl s
    · exact ⟨⟨[], rfl, Halved.refl _⟩, rfl, rfl⟩
  | enter s _ => exact ⟨⟨[], rfl, Halved.refl _⟩, rfl, rfl⟩
  | setKind s kind => exact ⟨⟨[], rfl, Halved.refl _⟩, rfl, NodeStack.depth_update _ _⟩
  | @leaf s front rest kind span nodes hr _ ha =>
    have hd := NodeStack.depth_attach ha
    exact ⟨⟨front, rfl, by rw [hr]; exact Halved.refl _⟩, rfl, hd⟩
  | @node s s₁ s₂ kind _ hc ih =>
    obtain ⟨n, parent, outer, range, ho, hl, _, rfl⟩ := Rule.closeNode_cases hc
    exact ⟨ih.moved, ih.sourceLength, by rw [← hl]; rfl⟩
  | @tried s s₁ _ ih => exact ⟨ih.moved, ih.sourceLength, ih.depth⟩
  | @undone s s₁ nodes _ hn ih =>
    obtain ⟨front, hp, hr⟩ := ih.moved
    have hback := ReadState.backTo_of_passed (s := s) hp
    rw [hback]
    exact ⟨⟨[], rfl, hr⟩, ih.sourceLength, (NodeStack.depth_restore hn).trans ih.depth⟩

/-! ## Sound states -/

/-- The tokens lie in order, and a node is open. -/
structure ReadState.Sound (s : ReadState) : Prop where
  inOrder : ∃ upper, InOrder 0 upper (s.passed.reverse ++ s.rest)
  opened : 0 < s.nodes.depth

theorem ReadState.Sound.speculate {s : ReadState} (hs : s.Sound) :
    ReadState.Sound { s with speculating := true } :=
  ⟨hs.inOrder, hs.opened⟩

theorem ReadState.Sound.begin {s : ReadState} (hs : s.Sound) (kind : NodeKind) :
    ReadState.Sound { s with nodes := s.nodes.begin kind } :=
  ⟨hs.inOrder, by rw [NodeStack.depth_begin]; omega⟩

/-- The tokens lie in order inside the source. -/
def ReadState.Within (s : ReadState) : Prop :=
  InOrder 0 s.sourceLength (s.passed.reverse ++ s.rest)

/-- The tokens that a reading goes through stay in order up to the same place. -/
theorem Forward.inOrder {s s' : ReadState} {upper : Nat} (h : Forward s s')
    (hs : InOrder 0 upper (s.passed.reverse ++ s.rest)) :
    InOrder 0 upper (s'.passed.reverse ++ s'.rest) := by
  obtain ⟨front, hp, hr⟩ := h.moved
  rw [hp, List.reverse_append, List.reverse_reverse, List.append_assoc]
  exact ((Halved.refl _).append hr).inOrder hs

theorem Forward.sound {s s' : ReadState} (h : Forward s s') (hs : s.Sound) : s'.Sound := by
  obtain ⟨upper, hall⟩ := hs.inOrder
  exact ⟨⟨upper, h.inOrder hall⟩, by rw [h.depth]; exact hs.opened⟩

theorem Forward.within {s s' : ReadState} (h : Forward s s') (hs : s.Within) : s'.Within := by
  unfold ReadState.Within
  rw [h.sourceLength]
  exact h.inOrder hs

theorem Passage.sound {s s' : ReadState} (h : Passage s s') (hs : s.Sound) : s'.Sound :=
  h.forward.sound hs

theorem Halved.head_start {t u : Token} {ts us : List Token} (h : Halved (t :: ts) (u :: us)) :
    u.span.start = t.span.start := by
  cases h with
  | keep _ _ => rfl
  | halve hv _ => exact hv.first_start

theorem ReadState.lastEnd_of_passed {s : ReadState} {front passed : List Token}
    (h : s.passed = front.reverse ++ passed) (hf : front ≠ []) :
    ∃ t ∈ front, s.lastEnd = t.span.stop := by
  refine ⟨front.getLast hf, List.getLast_mem hf, ?_⟩
  rw [← List.dropLast_concat_getLast hf, List.reverse_append] at h
  unfold ReadState.lastEnd
  rw [h]
  rfl

/-- What was read since a state starts before it ends. -/
theorem Forward.start_le_lastEnd {s s' : ReadState} (h : Forward s s') (hs : s.Sound)
    (hp : s.position < s'.position) : s.currentSpan.start ≤ s'.lastEnd := by
  obtain ⟨front, he, hr⟩ := h.moved
  obtain ⟨upper, hall⟩ := hs.inOrder
  obtain ⟨_, _, ho⟩ := inOrder_append.mp hall
  obtain ⟨_, ho', _⟩ := inOrder_append.mp (hr.inOrder ho)
  have hf : front ≠ [] := by
    rintro rfl
    simp [ReadState.position, he] at hp
  obtain ⟨u, hu, hlast⟩ := ReadState.lastEnd_of_passed he hf
  obtain ⟨t, front', rfl⟩ := List.exists_cons_of_ne_nil hf
  cases hrest : s.rest with
  | nil =>
    rw [hrest] at hr
    cases hr
  | cons v rest =>
    rw [hrest] at hr
    rw [ReadState.currentSpan_of_cons hrest, ← hr.head_start, hlast]
    exact Nat.le_of_lt (ho'.start_lt_stop rfl hu)

end HeaderBridge
