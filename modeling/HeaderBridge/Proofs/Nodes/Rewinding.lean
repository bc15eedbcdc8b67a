/-
  A rewind takes back everything that was built since the checkpoint. A checkpoint holds two numbers
  only, how many nodes were open and how many children the innermost of them had. They are enough:
  as long as none of the nodes of then is closed, these are still open below the ones that were
  opened since, and only the innermost of them has changed, by more children at its end (`Covers`).
  Each operation leaves this so (`Covers.perform`), and once the same node is innermost again,
  nothing is left above the nodes of then (`Covers.restore`). The numbers that are given to nodes go
  on behind each other through all of this, rewinds included (`History.ids_eq`).
-/
import HeaderBridge.Proofs.Nodes.Ledger

namespace HeaderBridge

namespace NodeStack

variable {s s' t u : NodeStack} {opened : List Node} {op : Operation} {ops : List Operation}
  {ids ids' : List Nat} {floor : Nat}

/-! ## Operations one after the other -/

/-- Does one operation. A root that is handed back is not kept. -/
def perform (s : NodeStack) : Operation → Except Fault NodeStack
  | .fresh kind => .ok (s.fresh kind).2
  | .begin kind => .ok (s.begin kind)
  | .push n => .ok (s.push n)
  | .attach n => s.attach n
  | .close => do
    let (_, s) ← s.close
    return s

/-- The numbers that an operation gives to nodes. -/
def issued (s : NodeStack) : Operation → List Nat
  | .fresh kind => [(s.fresh kind).1.id]
  | .begin kind => (s.begin kind).current?.toList.map Node.id
  | .push _ | .attach _ | .close => []

theorem exists_root_of_perform (h : s.perform .close = .ok s') :
    ∃ root, s.close = .ok (root, s') := by
  change (s.close >>= fun closed => pure closed.2) = .ok s' at h
  cases hclose : s.close with
  | error fault =>
    rw [hclose] at h
    cases h
  | ok closed =>
    rw [hclose] at h
    cases h
    exact ⟨closed.1, rfl⟩

/-- The operations are done one after the other and give out the numbers. None of them fails, and
    none closes one of the outermost nodes, as many as `floor`. -/
inductive Above (floor : Nat) : NodeStack → List Operation → List Nat → NodeStack → Prop where
  | nil (s : NodeStack) : Above floor s [] [] s
  | cons {s s' t : NodeStack} {op : Operation} {ops : List Operation} {ids : List Nat}
      (kept : op = .close → floor < s.depth) (done : s.perform op = .ok s')
      (behind : Above floor s' ops ids t) : Above floor s (op :: ops) (s.issued op ++ ids) t

/-! ## The nodes of a checkpoint -/

/-- The open nodes with children more at the end of the innermost one. -/
def extended (cs : List Node) : List Node → List Node
  | [] => []
  | n :: outer => { n with children := n.children ++ cs } :: outer

theorem extended_nil (opened : List Node) : extended [] opened = opened := by
  cases opened with
  | nil => rfl
  | cons n outer =>
    obtain ⟨id, kind, range, children⟩ := n
    simp only [extended, List.append_nil]

theorem length_extended (cs opened : List Node) : (extended cs opened).length = opened.length := by
  cases opened with
  | nil => rfl
  | cons n outer => rfl

/-- Below the nodes that were opened since are those of then, but for more children of the innermost
    of them. -/
def Covers (opened : List Node) (s : NodeStack) : Prop :=
  ∃ front cs, s.opened = front ++ extended cs opened

theorem covers_self (s : NodeStack) : Covers s.opened s :=
  ⟨[], [], (extended_nil s.opened).symm⟩

theorem Covers.attach {child : Node} (h : Covers opened s) (done : s.attach child = .ok s') :
    Covers opened s' := by
  obtain ⟨front, cs, hs⟩ := h
  unfold NodeStack.attach at done
  rw [hs] at done
  cases front with
  | cons n front =>
    cases done
    exact ⟨withChild n child :: front, cs, rfl⟩
  | nil =>
    -- The node of the checkpoint is innermost, so the child is one more of those to be dropped.
    cases opened with
    | nil => cases done
    | cons n outer =>
      cases done
      refine ⟨[], cs ++ [child], ?_⟩
      simp only [extended, withChild, List.nil_append, List.append_assoc]

theorem Covers.close {root : Option Node} (h : Covers opened s) (kept : opened.length < s.depth)
    (done : s.close = .ok (root, s')) : Covers opened s' := by
  obtain ⟨front, cs, hs⟩ := h
  unfold depth at kept
  unfold NodeStack.close at done
  rw [hs] at done kept
  match front with
  | [] =>
    rw [List.nil_append, length_extended] at kept
    exact absurd kept (Nat.lt_irrefl _)
  | [n] =>
    -- What is closed goes to the node of the checkpoint, or is handed back if there was none.
    cases opened with
    | nil =>
      cases done
      exact ⟨[], cs, rfl⟩
    | cons m outer =>
      cases done
      refine ⟨[], cs ++ [n], ?_⟩
      simp only [extended, withChild, List.nil_append, List.append_assoc]
  | n :: parent :: front =>
    cases done
    exact ⟨withChild parent n :: front, cs, rfl⟩

/-- Each operation leaves the nodes of the checkpoint where they are. -/
theorem Covers.perform (h : Covers opened s) (kept : op = .close → opened.length < s.depth)
    (done : s.perform op = .ok s') : Covers opened s' := by
  cases op with
  | fresh kind =>
    cases done
    exact h
  | begin kind =>
    obtain ⟨front, cs, hs⟩ := h
    cases done
    exact ⟨(s.fresh kind).1 :: front, cs, congrArg _ hs⟩
  | push n =>
    obtain ⟨front, cs, hs⟩ := h
    cases done
    exact ⟨n :: front, cs, congrArg _ hs⟩
  | attach n => exact h.attach done
  | close =>
    obtain ⟨root, hclose⟩ := exists_root_of_perform done
    exact h.close (kept rfl) hclose

theorem Above.covers (h : Above floor s ops ids t) (hfloor : opened.length = floor)
    (hs : Covers opened s) : Covers opened t := by
  induction h with
  | nil s => exact hs
  | cons kept done _ ih => exact ih (hs.perform (hfloor ▸ kept) done)

/-- Where as many nodes are open as then, a rewind leaves just those of then. -/
theorem Covers.restore (h : Covers s.opened t) (hdepth : t.depth = s.depth) :
    t.restore s.checkpoint = .ok { t with opened := s.opened } := by
  obtain ⟨front, cs, ht⟩ := h
  have hfront : front = [] := by
    unfold depth at hdepth
    rw [ht, List.length_append, length_extended] at hdepth
    exact List.eq_nil_of_length_eq_zero (by omega)
  subst hfront
  rw [List.nil_append] at ht
  unfold NodeStack.restore checkpoint
  rw [if_pos hdepth]
  unfold update current?
  cases hs : s.opened with
  | nil =>
    rw [hs, extended] at ht
    rw [ht]
    exact congrArg Except.ok (congrArg (NodeStack.mk · t.nextId) ht)
  | cons n outer =>
    obtain ⟨id, kind, range, children⟩ := n
    rw [hs, extended] at ht
    rw [ht]
    simp only [List.head?_cons, Option.map_some, Option.getD_some, List.take_left']

/-! ## The numbers that are given out -/

/-- What is done with a stack through all its life, with the numbers that are given out. The
    innermost node may be changed, and a rewind may go to any checkpoint that it does not fail
    for. -/
inductive History : NodeStack → List Nat → NodeStack → Prop where
  | nil (s : NodeStack) : History s [] s
  | perform {s s' t : NodeStack} {op : Operation} {ids : List Nat} (done : s.perform op = .ok s')
      (behind : History s' ids t) : History s (s.issued op ++ ids) t
  | update {s t : NodeStack} {ids : List Nat} (change : Node → Node)
      (behind : History (s.update change) ids t) : History s ids t
  | restore {s s' t : NodeStack} {ids : List Nat} {c : Checkpoint} (done : s.restore c = .ok s')
      (behind : History s' ids t) : History s ids t

theorem nextId_attach {child : Node} (h : s.attach child = .ok s') : s'.nextId = s.nextId := by
  obtain ⟨_, _, _, rfl⟩ := attach_cases h
  rfl

theorem nextId_close {root : Option Node} (h : s.close = .ok (root, s')) :
    s'.nextId = s.nextId := by
  unfold NodeStack.close at h
  split at h
  · cases h
  · cases h
    rfl
  · cases h
    rfl

theorem nextId_restore {c : Checkpoint} (h : s.restore c = .ok s') : s'.nextId = s.nextId := by
  unfold NodeStack.restore at h
  split at h
  · cases h
    exact nextId_update s _
  · cases h

/-- An operation gives out the next number or none. -/
theorem issued_eq (h : s.perform op = .ok s') :
    s.issued op = List.range' s.nextId (s.issued op).length ∧
      s'.nextId = s.nextId + (s.issued op).length := by
  cases op with
  | fresh kind =>
    cases h
    exact ⟨rfl, rfl⟩
  | begin kind =>
    cases h
    exact ⟨rfl, rfl⟩
  | push n =>
    cases h
    exact ⟨rfl, rfl⟩
  | attach n => exact ⟨rfl, nextId_attach h⟩
  | close =>
    obtain ⟨root, hclose⟩ := exists_root_of_perform h
    exact ⟨rfl, nextId_close hclose⟩

/-- The numbers come one after the other, whatever is taken back between them. -/
theorem History.ids_eq (h : History s ids t) :
    ids = List.range' s.nextId ids.length ∧ t.nextId = s.nextId + ids.length := by
  induction h with
  | nil s => exact ⟨rfl, rfl⟩
  | perform done _ ih =>
    obtain ⟨hissued, hnext⟩ := issued_eq done
    obtain ⟨hids, ht⟩ := ih
    rw [hnext] at hids ht
    refine ⟨?_, by rw [ht, List.length_append, Nat.add_assoc]⟩
    conv_lhs => rw [hissued, hids]
    rw [List.range'_append_1, List.length_append]
  | update change _ ih => rwa [nextId_update] at ih
  | restore done _ ih => rwa [nextId_restore done] at ih

theorem History.nodup (h : History s ids t) : ids.Nodup := by
  rw [h.ids_eq.1]
  exact List.nodup_range'

theorem History.append (h : History s ids t) (h' : History t ids' u) :
    History s (ids ++ ids') u := by
  induction h with
  | nil s => exact h'
  | perform done _ ih =>
    rw [List.append_assoc]
    exact .perform done (ih h')
  | update change _ ih => exact .update change (ih h')
  | restore done _ ih => exact .restore done (ih h')

theorem Above.history (h : Above floor s ops ids t) : History s ids t := by
  induction h with
  | nil s => exact .nil s
  | cons _ done _ ih => exact .perform done ih

/-! ## A rewind -/

/-- A rewind takes back everything that was built on top of a checkpoint. Whatever was done with the
    stack since, if the node that was innermost was never closed and is innermost again, the rewind
    does not fail, and the open nodes with everything below them are what they were. The next number
    stays what it is now: no number is given out a second time, neither one from in front of the
    checkpoint nor one from a node that the rewind drops, whatever else is done, further rewinds
    included. -/
theorem restore_above (h : Above s.depth s ops ids t) (hdepth : t.depth = s.depth) :
    ∃ u, t.restore s.checkpoint = .ok u ∧ u.opened = s.opened ∧ u.nextId = t.nextId ∧
      ∀ before after v, History {} before s → History u after v →
        (before ++ (ids ++ after)).Nodup := by
  have hrestore := (h.covers rfl (covers_self s)).restore hdepth
  refine ⟨_, hrestore, rfl, rfl, fun before after v hbefore hafter => ?_⟩
  exact (hbefore.append (h.history.append (.restore hrestore hafter))).nodup

/-- A leaf, a node with a node inside it, and a node that was made elsewhere, all of them attached to
    a root that had one child. -/
theorem restore_above_nested :
    ∃ s ops ids t, Above s.depth s ops ids t ∧ t.depth = s.depth ∧ ids = [2, 3, 4, 5] ∧
      t.opened.map (·.children.length) = [4] ∧ s.opened.map (·.children.length) = [1] ∧
      ∃ u, t.restore s.checkpoint = .ok u ∧ u.opened = s.opened ∧ u.nextId = t.nextId ∧
        ∀ before after v, History {} before s → History u after v →
          (before ++ (ids ++ after)).Nodup := by
  let s : NodeStack := ⟨[⟨0, .header, none, [⟨1, .invalid, none, []⟩]⟩], 2⟩
  have h : Above s.depth s [.fresh .invalid, .attach ⟨2, .invalid, some (Span.point 7), []⟩,
      .begin .modifierList, .begin .invalid, .close, .close, .fresh .invalid,
      .push ⟨5, .invalid, none, []⟩, .close] _ _ :=
    .cons nofun rfl <| .cons nofun rfl <| .cons nofun rfl <| .cons nofun rfl <|
    .cons (fun _ => by decide) rfl <| .cons (fun _ => by decide) rfl <| .cons nofun rfl <|
    .cons nofun rfl <| .cons (fun _ => by decide) rfl <| .nil _
  exact ⟨s, _, _, _, h, rfl, rfl, rfl, rfl, restore_above h rfl⟩

end NodeStack

end HeaderBridge
