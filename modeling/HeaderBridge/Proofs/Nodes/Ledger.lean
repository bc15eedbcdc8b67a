/-
  The stack of open nodes neither loses a node nor has one twice. A ledger follows whoever works
  with the stack: it keeps the nodes that were made and not yet given to the stack, the roots that
  were handed back, and a list of what was attached to what. Whatever is done, short of a rewind,
  every number that was given out stands at exactly one node of the ledger, every attached node has
  one parent, and children stand in the order of their attachment (`Ledger.Run.accounted`).

  The account is kept for a row of trees, whatever stands them beside each other (`Settled`): a new
  tree comes in, trees change places, and one tree becomes the last child of another one's root.
  Each operation is one of these moves.
-/
import HeaderBridge.Proofs.Tree.Placed
import Mathlib.Data.List.Nodup
import Mathlib.Logic.ExistsUnique

namespace HeaderBridge

theorem Node.sequenceAll_eq_flatMap (ns : List Node) : sequenceAll ns = ns.flatMap sequence := by
  induction ns with
  | nil => rfl
  | cons n ns ih => rw [sequenceAll, ih, List.flatMap_cons]

theorem Node.sequenceAll_perm {ns ms : List Node} (h : ns.Perm ms) :
    (sequenceAll ns).Perm (sequenceAll ms) := by
  rw [sequenceAll_eq_flatMap, sequenceAll_eq_flatMap]
  exact h.flatMap_right sequence

mutual

/-- What holds a node holds its children, too. -/
theorem Node.mem_sequence_of_child {n child : Node} (h : child ∈ n.children) :
    ∀ m : Node, n ∈ m.sequence → child ∈ m.sequence
  | ⟨id, kind, range, children⟩, hn => by
    rw [sequence, List.mem_cons] at hn ⊢
    rcases hn with rfl | hn
    · exact .inr (mem_sequenceAll_of_mem h)
    · exact .inr (mem_sequenceAll_of_child h children hn)

theorem Node.mem_sequenceAll_of_child {n child : Node} (h : child ∈ n.children) :
    ∀ ns : List Node, n ∈ sequenceAll ns → child ∈ sequenceAll ns
  | [], hn => nomatch hn
  | m :: ns, hn => by
    rw [sequenceAll, List.mem_append] at hn ⊢
    exact hn.imp (mem_sequence_of_child h m) (mem_sequenceAll_of_child h ns)

end

namespace NodeStack

/-! ## The account of a row of trees -/

/-- The numbers of what was attached to the node with a number, in the order in which it was. -/
def childrenOf (attached : List (Nat × Nat)) (id : Nat) : List Nat :=
  (attached.filter (·.1 == id)).map Prod.snd

/-- The trees in a row have the numbers below `next`, and they came to be by the attachments of a
    list, each of a child to its parent. -/
structure Settled (trees : List Node) (attached : List (Nat × Nat)) (next : Nat) : Prop where
  ids : ((Node.sequenceAll trees).map Node.id).Perm (List.range next)
  /-- What is not the root of a tree was attached once. -/
  places : (trees.map Node.id ++ attached.map Prod.snd).Perm (List.range next)
  children : ∀ n ∈ Node.sequenceAll trees, n.children.map Node.id = childrenOf attached n.id
  parents : ∀ link ∈ attached, link.1 < next

namespace Settled

variable {trees trees' : List Node} {attached : List (Nat × Nat)} {next : Nat} {n m p child : Node}

theorem empty : Settled [] [] 0 := ⟨.refl _, .refl _, nofun, nofun⟩

theorem perm (h : Settled trees attached next) (hp : trees.Perm trees') :
    Settled trees' attached next where
  ids := ((Node.sequenceAll_perm hp).symm.map _).trans h.ids
  places := ((hp.symm.map _).append_right _).trans h.places
  children n hn := h.children n ((Node.sequenceAll_perm hp).mem_iff.mpr hn)
  parents := h.parents

theorem nodup (h : Settled trees attached next) : ((Node.sequenceAll trees).map Node.id).Nodup :=
  h.ids.nodup_iff.mpr List.nodup_range

/-- No number of a tree was given out twice. -/
theorem eq_of_id_eq (h : Settled trees attached next) (hn : n ∈ Node.sequenceAll trees)
    (hm : m ∈ Node.sequenceAll trees) (heq : n.id = m.id) : n = m :=
  List.inj_on_of_nodup_map h.nodup hn hm heq

/-- A node with the next number comes in. -/
theorem add (h : Settled trees attached next) (hid : n.id = next) (hchildren : n.children = []) :
    Settled (n :: trees) attached (next + 1) where
  ids := by
    rw [Node.sequenceAll, Node.sequence_eq, hchildren, List.range_succ]
    simp only [Node.sequenceAll, List.cons_append, List.nil_append, List.map_cons, hid]
    exact (h.ids.cons next).trans (List.perm_append_singleton ..).symm
  places := by
    rw [List.map_cons, List.cons_append, hid, List.range_succ]
    exact (h.places.cons next).trans (List.perm_append_singleton ..).symm
  children m hm := by
    rw [Node.sequenceAll, Node.sequence_eq, hchildren] at hm
    rcases List.mem_cons.mp hm with rfl | hm
    · -- No number was attached yet to one that is only given out now.
      have hnone : attached.filter (·.1 == m.id) = [] := by
        refine List.filter_eq_nil_iff.mpr fun link hlink => ?_
        have hlt := h.parents link hlink
        simp only [beq_iff_eq]
        omega
      rw [hchildren, childrenOf, hnone]
      rfl
    · exact h.children m hm
  parents link hlink := Nat.lt_succ_of_lt (h.parents link hlink)

/-- A root may be given another kind and another range. -/
theorem relabel (h : Settled (m :: trees) attached next) (hid : n.id = m.id)
    (hchildren : n.children = m.children) : Settled (n :: trees) attached next := by
  have hids : (Node.sequenceAll (n :: trees)).map Node.id =
      (Node.sequenceAll (m :: trees)).map Node.id := by
    simp only [Node.sequenceAll, Node.sequence_eq, List.cons_append, List.map_cons, hid, hchildren]
  refine ⟨hids ▸ h.ids, by simpa [hid] using h.places, fun k hk => ?_, h.parents⟩
  rw [Node.sequenceAll, Node.sequence_eq] at hk
  rcases List.mem_cons.mp hk with rfl | hk
  · have hm := h.children m (Node.mem_sequenceAll_of_mem List.mem_cons_self)
    rwa [hchildren, hid]
  · refine h.children k ?_
    rw [Node.sequenceAll, Node.sequence_eq, ← hchildren]
    exact List.mem_cons_of_mem _ hk

/-- A tree becomes the last child of the root of another one. -/
theorem graft (h : Settled (child :: p :: trees) attached next) :
    Settled (withChild p child :: trees) (attached ++ [(p.id, child.id)]) next := by
  -- The node that is extended comes first; the others are the same as before.
  have hbefore : (Node.sequenceAll (child :: p :: trees)).Perm
      (p :: (Node.sequenceAll (p.children ++ [child]) ++ Node.sequenceAll trees)) := by
    simp only [Node.sequenceAll, Node.sequence_eq p, Node.sequenceAll_append, List.cons_append,
      List.append_nil]
    refine List.perm_middle.trans (.cons p ?_)
    rw [← List.append_assoc]
    exact List.perm_append_comm.append_right _
  have hafter : Node.sequenceAll (withChild p child :: trees) =
      withChild p child :: (Node.sequenceAll (p.children ++ [child]) ++ Node.sequenceAll trees) := by
    rw [Node.sequenceAll, Node.sequence_eq]
    rfl
  have hids : ((Node.sequenceAll (withChild p child :: trees)).map Node.id).Perm
      (List.range next) := by
    rw [hafter]
    exact (hbefore.map Node.id).symm.trans h.ids
  have hp : p ∈ Node.sequenceAll (child :: p :: trees) :=
    Node.mem_sequenceAll_of_mem (List.mem_cons_of_mem _ List.mem_cons_self)
  refine ⟨hids, ?_, fun k hk => ?_, fun link hlink => ?_⟩
  · refine List.Perm.trans ?_ h.places
    simp only [List.map_cons, List.map_append, List.map_nil, List.cons_append]
    refine (List.Perm.cons _ ?_).trans (.swap ..)
    rw [← List.append_assoc]
    exact List.perm_append_comm
  · have hfirst := (hids.nodup_iff.mpr List.nodup_range)
    rw [hafter, List.map_cons, List.nodup_cons] at hfirst
    rw [childrenOf, List.filter_append, List.map_append, ← childrenOf]
    rw [hafter] at hk
    rcases List.mem_cons.mp hk with rfl | hk
    · show (p.children ++ [child]).map Node.id = childrenOf attached p.id ++ _
      rw [List.map_append, h.children p hp]
      simp [withChild]
    · have hne : p.id ≠ k.id := fun heq => hfirst.1 (heq ▸ List.mem_map_of_mem hk)
      rw [h.children k (hbefore.mem_iff.mpr (List.mem_cons_of_mem _ hk))]
      simp [hne]
  · rcases List.mem_append.mp hlink with hlink | hlink
    · exact h.parents link hlink
    · rw [List.mem_singleton.mp hlink]
      exact List.mem_range.mp (h.ids.mem_iff.mp (List.mem_map_of_mem hp))

/-- What was attached stands below exactly one node. -/
theorem existsUnique_parent (h : Settled trees attached next) (hn : n ∈ Node.sequenceAll trees)
    (hattached : n.id ∈ attached.map Prod.snd) :
    ∃! p, p ∈ Node.sequenceAll trees ∧ n ∈ p.children := by
  have hlink : ∀ {p}, p ∈ Node.sequenceAll trees → (n ∈ p.children ↔ (p.id, n.id) ∈ attached) := by
    intro p hp
    have hmem : n.id ∈ p.children.map Node.id ↔ (p.id, n.id) ∈ attached := by
      rw [h.children p hp]
      simp [childrenOf]
    rw [← hmem, List.mem_map]
    constructor
    · exact fun hchild => ⟨n, hchild, rfl⟩
    · rintro ⟨child, hchild, heq⟩
      rwa [← h.eq_of_id_eq (Node.mem_sequenceAll_of_child hchild _ hp) hn heq]
  obtain ⟨⟨parent, id⟩, hmem, hid⟩ := List.mem_map.mp hattached
  obtain rfl : id = n.id := hid
  have hrange := h.ids.mem_iff.mpr (List.mem_range.mpr (h.parents _ hmem))
  obtain ⟨p, hp, rfl⟩ := List.mem_map.mp hrange
  refine ⟨p, ⟨hp, (hlink hp).mpr hmem⟩, fun q hq => ?_⟩
  -- The number of the node was attached once, so both links are the same.
  have hnodup : (attached.map Prod.snd).Nodup :=
    (h.places.nodup_iff.mpr List.nodup_range).of_append_right
  have hsame := List.inj_on_of_nodup_map hnodup ((hlink hq.1).mp hq.2) hmem rfl
  exact h.eq_of_id_eq hq.1 hp (congrArg Prod.fst hsame)

end Settled

/-! ## Working with the stack -/

/-- What can be done with the stack, short of a rewind. -/
inductive Operation where
  /-- Makes a node that is not attached anywhere. -/
  | fresh (kind : NodeKind)
  | begin (kind : NodeKind)
  | push (n : Node)
  | attach (n : Node)
  | close

/-- A stack in use. -/
structure Ledger where
  stack : NodeStack := {}
  /-- The nodes that were handed back. -/
  roots : List Node := []
  /-- The nodes that were made and not yet given to the stack. -/
  loose : List Node := []
  /-- The attachments so far, oldest first: the number of the parent and that of the child. -/
  attached : List (Nat × Nat) := []

namespace Ledger

/-- The nodes that stand below no other one. -/
def trees (l : Ledger) : List Node := l.stack.opened ++ (l.roots ++ l.loose)

/-- Every node that is open, handed back or loose, and everything below these. -/
def nodes (l : Ledger) : List Node := Node.sequenceAll l.trees

/-- The loose nodes without one that is given to the stack. -/
def looseBut (l : Ledger) (n : Node) : List Node := l.loose.eraseP (·.id == n.id)

/-- Does one operation, and notes what it attaches to what. -/
def perform (l : Ledger) : Operation → Except Fault Ledger
  | .fresh kind =>
    let (n, stack) := l.stack.fresh kind
    .ok { l with stack, loose := l.loose ++ [n] }
  | .begin kind => .ok { l with stack := l.stack.begin kind }
  | .push n => .ok { l with stack := l.stack.push n, loose := l.looseBut n }
  | .attach n => do
    let stack ← l.stack.attach n
    let links := l.stack.current?.toList.map fun parent => (parent.id, n.id)
    return { l with stack, loose := l.looseBut n, attached := l.attached ++ links }
  | .close => do
    let (root, stack) ← l.stack.close
    let links := match l.stack.opened with
      | n :: parent :: _ => [(parent.id, n.id)]
      | _ => []
    return { l with stack, roots := l.roots ++ root.toList, attached := l.attached ++ links }

/-- A node that is given to the stack was made by it and was not given before. Its kind and its
    range may have been set since. -/
def Owns (l : Ledger) : Operation → Prop
  | .push n | .attach n => ∃ m ∈ l.loose, n.id = m.id ∧ n.children = m.children
  | _ => True

/-- The operations are done one after the other, and none of them fails. -/
inductive Run : Ledger → List Operation → Ledger → Prop where
  | nil (l : Ledger) : Run l [] l
  | cons {l l' l'' : Ledger} {op : Operation} {ops : List Operation} (owns : l.Owns op)
      (done : l.perform op = .ok l') (behind : Run l' ops l'') : Run l (op :: ops) l''

/-- The account of a ledger is in order. -/
def Balanced (l : Ledger) : Prop := Settled l.trees l.attached l.stack.nextId

variable {l l' : Ledger} {n : Node} {op : Operation} {ops : List Operation}

/-- The row of trees with a loose one in front, as it is when it is given to the stack. -/
theorem Balanced.given (h : l.Balanced)
    (owns : ∃ m ∈ l.loose, n.id = m.id ∧ n.children = m.children) :
    Settled (n :: (l.stack.opened ++ (l.roots ++ l.looseBut n))) l.attached l.stack.nextId := by
  obtain ⟨m, hm, hid, hchildren⟩ := owns
  have hfound : (m.id == n.id) = true := beq_iff_eq.mpr hid.symm
  obtain ⟨m', before, behind, -, hsame, hloose, herase⟩ :=
    List.exists_of_eraseP (p := (·.id == n.id)) hm hfound
  -- No two loose nodes share a number, so the one that is taken away is the one that is given.
  have hmem : ∀ {k}, k ∈ l.loose → k ∈ Node.sequenceAll l.trees := fun hk =>
    Node.mem_sequenceAll_of_mem (List.mem_append_right _ (List.mem_append_right _ hk))
  have hm' : m' ∈ l.loose := hloose ▸ List.mem_append_right _ List.mem_cons_self
  obtain rfl : m' = m :=
    h.eq_of_id_eq (hmem hm') (hmem hm) ((beq_iff_eq.mp hsame).trans hid)
  have hperm : l.trees.Perm (m' :: (l.stack.opened ++ (l.roots ++ l.looseBut n))) := by
    unfold trees looseBut
    rw [herase, hloose]
    simp only [← List.append_assoc]
    exact List.perm_middle
  exact (h.perm hperm).relabel hid hchildren

/-- Each operation keeps the account in order. -/
theorem Balanced.perform (h : l.Balanced) (owns : l.Owns op) (done : l.perform op = .ok l') :
    l'.Balanced := by
  cases op with
  | fresh kind =>
    cases done
    refine (Settled.add (n := (l.stack.fresh kind).1) h rfl rfl).perm ?_
    unfold trees
    simp only [← List.append_assoc]
    exact (List.perm_append_singleton _ _).symm
  | begin kind =>
    cases done
    exact Settled.add (n := (l.stack.fresh kind).1) h rfl rfl
  | push n =>
    cases done
    exact h.given owns
  | attach n =>
    have hgiven := h.given owns
    unfold Ledger.perform NodeStack.attach at done
    cases hopened : l.stack.opened with
    | nil =>
      rw [hopened] at done
      cases done
    | cons p outer =>
      rw [hopened] at done hgiven
      simp only [current?, hopened] at done
      cases done
      exact hgiven.graft
  | close =>
    unfold Balanced trees at h
    unfold Ledger.perform NodeStack.close at done
    match hopened : l.stack.opened with
    | [] =>
      rw [hopened] at done
      cases done
    | [n] =>
      rw [hopened] at done h
      cases done
      unfold Balanced trees
      simp only [Option.toList_some, List.append_nil, List.nil_append, List.append_assoc,
        List.singleton_append] at h ⊢
      exact h.perm List.perm_middle.symm
    | n :: p :: outer =>
      rw [hopened] at done h
      cases done
      unfold Balanced trees
      simp only [Option.toList_none, List.append_nil]
      exact Settled.graft h

theorem Run.balanced (h : Run l ops l') (hl : l.Balanced) : l'.Balanced := by
  induction h with
  | nil l => exact hl
  | cons owns done _ ih => exact ih (hl.perform owns done)

/-- Whatever was done with a new stack: the numbers of the nodes that are open, handed back or
    loose, with everything below them, are distinct and are the numbers that were given out. Every
    attached node has one parent, and the children of a node are what was attached to it, in the
    order in which it was. -/
theorem Run.accounted {ops : List Operation} {l : Ledger} (h : Run {} ops l) :
    (l.nodes.map Node.id).Nodup ∧
    (l.nodes.map Node.id).Perm (List.range l.stack.nextId) ∧
    (∀ n ∈ l.nodes, n.id ∈ l.attached.map Prod.snd → ∃! p, p ∈ l.nodes ∧ n ∈ p.children) ∧
    ∀ n ∈ l.nodes, n.children.map Node.id = childrenOf l.attached n.id := by
  have hl : l.Balanced := h.balanced Settled.empty
  exact ⟨hl.nodup, hl.ids, fun n hn => hl.existsUnique_parent hn, hl.children⟩

/-- A leaf that got a range before it was attached, a closed node, a root that was handed back and
    a second root that is open. -/
theorem Run.accounted_two_roots : ∃ ops l, Run {} ops l ∧ l.roots.length = 1 ∧
    l.stack.depth = 1 ∧ l.attached = [(1, 0), (1, 2)] ∧
    (l.nodes.map Node.id).Nodup ∧
    (l.nodes.map Node.id).Perm (List.range l.stack.nextId) ∧
    (∀ n ∈ l.nodes, n.id ∈ l.attached.map Prod.snd → ∃! p, p ∈ l.nodes ∧ n ∈ p.children) ∧
    ∀ n ∈ l.nodes, n.children.map Node.id = childrenOf l.attached n.id := by
  let leaf : Node := ⟨0, .invalid, some (Span.point 7), []⟩
  let outer : Node := ⟨3, .header, none, []⟩
  have h : Run {} [.fresh .invalid, .begin .header, .attach leaf, .begin .modifierList, .close,
      .close, .fresh .header, .push outer] _ :=
    .cons trivial rfl <| .cons trivial rfl <|
    .cons ⟨_, List.mem_singleton_self _, rfl, rfl⟩ rfl <| .cons trivial rfl <|
    .cons trivial rfl <| .cons trivial rfl <| .cons trivial rfl <|
    .cons ⟨_, List.mem_singleton_self _, rfl, rfl⟩ rfl <| .nil _
  exact ⟨_, _, h, rfl, rfl, rfl, h.accounted⟩

end Ledger

end NodeStack

end HeaderBridge
