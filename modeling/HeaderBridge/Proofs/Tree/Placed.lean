/-
  Where the nodes of a tree stand. `Placed ts ns` says that the nodes lie over the tokens `ts`
  as text does: each over tokens of its own, its children over these, and the next one over
  tokens behind them, with tokens of no node anywhere between. A course extends the innermost open
  node by nodes that are placed over the tokens it read, numbered in the order of the tree
  (`Course.laid`).
-/
import HeaderBridge.Proofs.Header.Building
import HeaderBridge.Proofs.Tree.Course

namespace HeaderBridge

theorem Node.sequence_eq (n : Node) : n.sequence = n :: sequenceAll n.children := by
  obtain ⟨id, kind, range, children⟩ := n
  rw [sequence]

theorem Node.sequence_subset_sequenceAll {n : Node} {ns : List Node} (h : n ∈ ns) :
    n.sequence ⊆ sequenceAll ns := by
  induction ns with
  | nil => cases h
  | cons m ns ih =>
    rw [sequenceAll]
    rcases List.mem_cons.mp h with rfl | h
    · exact List.subset_append_left ..
    · exact List.subset_append_of_subset_right _ (ih h)

theorem Node.mem_sequenceAll_of_mem {n : Node} {ns : List Node} (h : n ∈ ns) :
    n ∈ sequenceAll ns := by
  refine sequence_subset_sequenceAll h ?_
  rw [sequence_eq]
  exact List.mem_cons_self

theorem Node.mem_sequence_of_mem_children {root n : Node} (h : n ∈ root.children) :
    n ∈ root.sequence := by
  rw [sequence_eq]
  exact List.mem_cons_of_mem _ (mem_sequenceAll_of_mem h)

/-! ## Nodes over tokens -/

/-- The nodes lie one behind the other over some tokens, and so does what is below each. -/
inductive Placed : List Token → List Node → Prop where
  | nil (between : List Token) : Placed between []
  | node {before own after : List Token} {n : Node} {ns : List Node} {span : Span}
      (range : n.range = some span) (covers : Covers span own) (below : Placed own n.children)
      (behind : Placed after ns) : Placed (before ++ (own ++ after)) (n :: ns)

namespace Placed

variable {ts us : List Token} {ns ms : List Node}

theorem behindTokens (h : Placed us ns) (ts : List Token) : Placed (ts ++ us) ns := by
  cases h with
  | nil _ => exact .nil (ts ++ us)
  | node range covers below behind =>
    rw [← List.append_assoc]
    exact .node range covers below behind

theorem append (h : Placed ts ns) (h' : Placed us ms) : Placed (ts ++ us) (ns ++ ms) := by
  induction h with
  | nil between => exact h'.behindTokens between
  | node range covers below _ _ ih =>
    rw [List.append_assoc, List.append_assoc, List.cons_append]
    exact .node range covers below ih

/-- A node over all the tokens. -/
theorem single {n : Node} {span : Span} (range : n.range = some span) (covers : Covers span ts)
    (below : Placed ts n.children) : Placed ts [n] := by
  have h : Placed ([] ++ (ts ++ [])) [n] := .node range covers below (.nil [])
  rwa [List.nil_append, List.append_nil] at h

/-- Every node of the tree has tokens of its own, and its children lie over these. -/
theorem exists_own (h : Placed ts ns) {n : Node} (hn : n ∈ Node.sequenceAll ns) :
    ∃ own span, own <:+: ts ∧ n.range = some span ∧ Covers span own ∧ Placed own n.children := by
  induction h with
  | nil _ => cases hn
  | @node before own after m ms span range covers below _ ihBelow ihBehind =>
    have hown : own <:+: before ++ (own ++ after) := ⟨before, after, List.append_assoc ..⟩
    have hafter : after <:+: before ++ (own ++ after) :=
      ⟨before ++ own, [], by rw [List.append_nil, List.append_assoc]⟩
    rw [Node.sequenceAll, List.mem_append] at hn
    rcases hn with hn | hn
    · rw [Node.sequence_eq, List.mem_cons] at hn
      rcases hn with rfl | hn
      · exact ⟨own, span, hown, range, covers, below⟩
      · obtain ⟨part, span', hpart, hrest⟩ := ihBelow hn
        exact ⟨part, span', hpart.trans hown, hrest⟩
    · obtain ⟨part, span', hpart, hrest⟩ := ihBehind hn
      exact ⟨part, span', hpart.trans hafter, hrest⟩

end Placed

/-! ## Numbers in the order of the tree -/

/-- The nodes and those below them have the numbers from `first` up to, and not with, `next`, each
    node before its children. -/
def NumberedFrom (first : Nat) (ns : List Node) (next : Nat) : Prop :=
  ∃ count, (Node.sequenceAll ns).map Node.id = List.range' first count ∧ next = first + count

theorem Node.sequenceAll_append (ns ms : List Node) :
    sequenceAll (ns ++ ms) = sequenceAll ns ++ sequenceAll ms := by
  induction ns with
  | nil => rfl
  | cons n ns ih => rw [List.cons_append, sequenceAll, sequenceAll, ih, List.append_assoc]

theorem Node.sequenceAll_singleton (n : Node) : sequenceAll [n] = n :: sequenceAll n.children := by
  rw [sequenceAll, sequenceAll, sequence_eq, List.append_nil]

namespace NumberedFrom

variable {first middle next : Nat} {ns ms : List Node}

theorem nil (first : Nat) : NumberedFrom first [] first := ⟨0, rfl, rfl⟩

theorem append (h : NumberedFrom first ns middle) (h' : NumberedFrom middle ms next) :
    NumberedFrom first (ns ++ ms) next := by
  obtain ⟨count, hns, rfl⟩ := h
  obtain ⟨count', hms, rfl⟩ := h'
  refine ⟨count + count', ?_, Nat.add_assoc ..⟩
  rw [Node.sequenceAll_append, List.map_append, hns, hms, List.range'_append_1]

theorem single {n : Node} (h : NumberedFrom (n.id + 1) n.children next) :
    NumberedFrom n.id [n] next := by
  obtain ⟨count, hns, rfl⟩ := h
  refine ⟨count + 1, ?_, by omega⟩
  rw [Node.sequenceAll_singleton, List.map_cons, hns, List.range'_succ]

end NumberedFrom

/-! ## What a course adds -/

/-- Tokens were read, and the innermost open node has grown by nodes that are placed over them and
    numbered on from the number that was next. -/
structure Lays (s : ReadState) (front : List Token) (kind : Option NodeKind) (cs : List Node)
    (s' : ReadState) : Prop where
  passed : s'.passed = front.reverse ++ s.passed
  rest : Halved s.rest (front ++ s'.rest)
  opened : ∀ n outer, s.nodes.opened = n :: outer → s'.nodes.opened = n.grown kind cs :: outer
  placed : Placed front cs
  numbered : NumberedFrom s.nodes.nextId cs s'.nodes.nextId

namespace Lays

variable {s s' s'' : ReadState} {front front' : List Token} {kind kind' : Option NodeKind}
  {cs cs' : List Node}

theorem trans (h : Lays s front kind cs s') (h' : Lays s' front' kind' cs' s'') :
    Lays s (front ++ front') (kind'.or kind) (cs ++ cs') s'' where
  passed := by rw [h'.passed, h.passed, List.reverse_append, List.append_assoc]
  rest := by
    rw [List.append_assoc]
    exact h.rest.trans ((Halved.refl front).append h'.rest)
  opened n outer ho := by rw [h'.opened _ _ (h.opened n outer ho), Node.grown_grown]
  placed := h.placed.append h'.placed
  numbered := h.numbered.append h'.numbered

/-- Where no node was touched, tokens may have been read. -/
theorem of_nodes (hpassed : s'.passed = front.reverse ++ s.passed)
    (hrest : Halved s.rest (front ++ s'.rest)) (hnodes : s'.nodes = s.nodes) :
    Lays s front none [] s' where
  passed := hpassed
  rest := hrest
  opened n outer ho := by rw [hnodes, ho, Node.grown_none_nil]
  placed := .nil front
  numbered := by rw [hnodes]; exact .nil _

/-- A leaf lies over the tokens that were read for it. -/
theorem leaf {rest : List Token} {node : NodeKind} {span : Span} {nodes : NodeStack}
    (tokens : s.rest = front ++ rest) (covers : Covers span front)
    (attached : (s.nodes.fresh node).2.attach
      { (s.nodes.fresh node).1 with range := some span } = .ok nodes) :
    Lays s front none [⟨s.nodes.nextId, node, some span, []⟩] { s.past front rest with nodes } := by
  obtain ⟨n, outer, ho, rfl⟩ := NodeStack.attach_cases attached
  refine ⟨rfl, ?_, fun m outer' hm => ?_, .single rfl covers (.nil front), .single (.nil _)⟩
  · rw [tokens]
    exact .refl _
  · rw [show (s.nodes.fresh node).2.opened = s.nodes.opened from rfl, hm] at ho
    obtain ⟨rfl, rfl⟩ := List.cons.inj ho
    rfl

/-- A closed node covers what was read since it was opened. -/
theorem close {s₁ s₂ : ReadState} {opening : NodeKind}
    (h : Lays { s with nodes := s.nodes.begin opening } front kind cs s₁)
    (moved : s.position < s₁.position)
    (closed : Rule.closeNode s.currentSpan.start s.position s.nodes.depth s₁ = .ok s₂) :
    ∃ span, Covers span front ∧
      Lays s front none [⟨s.nodes.nextId, kind.getD opening, some span, cs⟩] s₂ := by
  obtain ⟨n, parent, outer, range, hopened, _, hrange, rfl⟩ := Rule.closeNode_cases closed
  have hgrown := h.opened _ _ rfl
  rw [hopened] at hgrown
  obtain ⟨rfl, hparent⟩ := List.cons.inj hgrown
  have hpassed : s₁.passed = front.reverse ++ s.passed := h.passed
  have hrest : Halved s.rest (front ++ s₁.rest) := h.rest
  have hne : front ≠ [] := by
    rintro rfl
    simp [ReadState.position, hpassed] at moved
  -- The range goes from the first token that was read to the last one.
  have hcovers : ∃ span, range = some span ∧ Covers span front := by
    unfold Rule.closingRange at hrange
    rw [if_pos moved] at hrange
    unfold Span.between at hrange
    split at hrange
    · have hstart : s.currentSpan.start = (front.head hne).span.start := by
        obtain ⟨t, front', rfl⟩ := List.exists_cons_of_ne_nil hne
        cases hr : s.rest with
        | nil => rw [hr] at hrest; cases hrest
        | cons u rest =>
          rw [hr] at hrest
          rw [ReadState.currentSpan_of_cons hr]
          exact hrest.head_start.symm
      cases hrange
      exact ⟨_, rfl, hne, hstart, ReadState.lastEnd_eq hpassed hne⟩
    · cases hrange
  obtain ⟨span, rfl, hcovers⟩ := hcovers
  let made : Node := ⟨s.nodes.nextId, kind.getD opening, some span, cs⟩
  refine ⟨span, hcovers, hpassed, hrest, fun m outer' ho => ?_, .single (n := made) rfl hcovers
    h.placed, NumberedFrom.single (n := made) h.numbered⟩
  rw [ho] at hparent
  obtain ⟨rfl, rfl⟩ := List.cons.inj hparent
  rfl

end Lays

/-- Every course adds nodes over the tokens that are read on it, in their order. -/
theorem Course.laid {s s' : ReadState} (h : Course s s') :
    ∃ front kind cs, Lays s front kind cs s' := by
  induction h with
  | refl s => exact ⟨[], none, [], .of_nodes rfl (Halved.refl _) rfl⟩
  | trans _ _ ih ih' =>
    obtain ⟨_, _, _, hfirst⟩ := ih
    obtain ⟨_, _, _, hsecond⟩ := ih'
    exact ⟨_, _, _, hfirst.trans hsecond⟩
  | @read s t rest hr => exact ⟨[t], none, [], .of_nodes rfl (by rw [hr]; exact .refl _) rfl⟩
  | @halve s t a b rest hr hv =>
    refine ⟨[], none, [], .of_nodes rfl ?_ rfl⟩
    rw [hr]
    exact .halve hv (.refl rest)
  | report _ =>
    refine ⟨[], none, [], ?_⟩
    unfold ReadState.report
    split
    · exact .of_nodes rfl (Halved.refl _) rfl
    · exact .of_nodes rfl (Halved.refl _) rfl
  | enter s _ => exact ⟨[], none, [], .of_nodes rfl (Halved.refl _) rfl⟩
  | setKind s kind =>
    refine ⟨[], some kind, [], rfl, Halved.refl _, fun n outer ho => ?_, .nil [], ?_⟩
    · simp [NodeStack.update, ho, Node.grown]
    · rw [NodeStack.nextId_update]
      exact .nil _
  | leaf tokens covers attached => exact ⟨_, none, _, .leaf tokens covers attached⟩
  | node _ sparing closed ih =>
    obtain ⟨_, _, _, hinner⟩ := ih
    obtain ⟨_, _, hlays⟩ := hinner.close sparing.moved closed
    exact ⟨_, none, _, hlays⟩

/-- Numbers only grow on a course, so those that were given on the way fit wherever the last one
    does. -/
theorem Course.nextId_mono {s s' : ReadState} (h : Course s s') :
    s.nodes.nextId ≤ s'.nodes.nextId := by
  obtain ⟨_, _, _, hlays⟩ := h.laid
  obtain ⟨_, _, hnext⟩ := hlays.numbered
  exact hnext ▸ Nat.le_add_right _ _

end HeaderBridge
