/-
  The tree of a header is well formed whatever stands in the source: nodes are numbered in the
  order of the tree, ranges begin and end where tokens do, and they are nested as the nodes are.
  The rules keep to a course, and a course places its nodes over the tokens it reads, so all that
  remains is that these tokens lie in order. A course makes at most two nodes for a token, which has
  a byte at least, so only a source of 2 GiB or more can have too many nodes for 32-bit numbers.
-/
import HeaderBridge.Proofs.Totality.Reading
import HeaderBridge.Proofs.Tree.Placed
import HeaderBridge.Proofs.Tree.Rules
import Mathlib.Data.List.Nodup

namespace HeaderBridge

/-- The range of the second node lies inside that of the first. -/
def Node.Encloses (outer inner : Node) : Prop :=
  ∃ span span', outer.range = some span ∧ inner.range = some span' ∧
    span.start ≤ span'.start ∧ span'.stop ≤ span.stop

/-- The range of the first node ends before that of the second one starts. -/
def Node.Precedes (n m : Node) : Prop :=
  ∃ span span', n.range = some span ∧ m.range = some span' ∧ span.stop ≤ span'.start

/-- A tree over a row of tokens, as a source text has it. -/
structure Node.WellFormed (root : Node) (row : List Token) : Prop where
  /-- Numbers are given from zero on, to each node before its children. -/
  numbered : root.sequence.map Node.id = List.range root.sequence.length
  /-- A number belongs to one node, and looking for it finds that node. -/
  found : ∀ id n, root.find? id = some n ↔ n ∈ root.sequence ∧ n.id = id
  /-- A node below the root covers some tokens of the row. -/
  covered : ∀ n ∈ sequenceAll root.children, ∃ span own,
    n.range = some span ∧ own <:+: row ∧ Covers span own
  /-- The range of a child lies inside that of its parent. -/
  nested : ∀ n ∈ root.sequence, ∀ child ∈ n.children, n.Encloses child
  /-- Siblings do not overlap, and stand in the order of the source. -/
  ordered : ∀ n ∈ root.sequence, n.children.Pairwise Precedes

/-! ## Tokens in order under nodes -/

/-- None of the tokens is empty. -/
theorem InOrder.length_le {lower upper : Nat} {ts : List Token} (h : InOrder lower upper ts) :
    lower + ts.length ≤ upper := by
  induction ts generalizing lower with
  | nil => exact h
  | cons t ts ih =>
    obtain ⟨hlower, hfull, _, hrest⟩ := h
    have hbehind := ih hrest
    rw [List.length_cons]
    omega

theorem InOrder.le {lower upper : Nat} {ts : List Token} (h : InOrder lower upper ts) :
    lower ≤ upper :=
  Nat.le_of_add_right_le h.length_le

/-- The tokens that a span covers stand in order inside it. -/
theorem Covers.inOrder {lower upper : Nat} {span : Span} {own : List Token}
    (hc : Covers span own) (ho : InOrder lower upper own) :
    lower ≤ span.start ∧ span.stop ≤ upper ∧ InOrder span.start span.stop own := by
  have hstart := hc.start
  have hstop := hc.stop
  generalize hc.ne_nil = hne at hstart hstop
  -- Nothing lies in front of the first token, and nothing behind the last one.
  have hfirst : lower ≤ span.start ∧ InOrder span.start upper own := by
    cases own with
    | nil => exact absurd rfl hne
    | cons t ts => rw [hstart]; exact ⟨ho.1, Nat.le_refl _, ho.2⟩
  refine ⟨hfirst.1, ?_⟩
  have hlast := hfirst.2
  rw [← List.dropLast_concat_getLast hne, inOrder_append] at hlast
  obtain ⟨m, hfront, hm, hlt, hdouble, hle⟩ := hlast
  have hall : InOrder span.start span.stop (own.dropLast ++ [own.getLast hne]) :=
    inOrder_append.mpr ⟨m, hfront, hm, hlt, hdouble, Nat.le_of_eq hstop.symm⟩
  rw [List.dropLast_concat_getLast hne] at hall
  exact ⟨by rw [hstop]; exact hle, hall⟩

namespace Placed

variable {lower upper : Nat} {ts : List Token} {ns : List Node}

/-- Nodes over tokens that stand between two offsets have their ranges there. -/
theorem between (h : Placed ts ns) (ho : InOrder lower upper ts) {n : Node} (hn : n ∈ ns) :
    ∃ span, n.range = some span ∧ lower ≤ span.start ∧ span.stop ≤ upper := by
  induction h generalizing lower with
  | nil _ => cases hn
  | node range covers _ _ _ ih =>
    obtain ⟨m, hbefore, ho⟩ := inOrder_append.mp ho
    obtain ⟨m', hown, hafter⟩ := inOrder_append.mp ho
    have hm := hbefore.le
    rcases List.mem_cons.mp hn with rfl | hn
    · obtain ⟨hle, hle', _⟩ := covers.inOrder hown
      exact ⟨_, range, by omega, Nat.le_trans hle' hafter.le⟩
    · obtain ⟨span, hrange, hle, hle'⟩ := ih hafter hn
      have := hown.le
      exact ⟨span, hrange, by omega, hle'⟩

/-- Nodes over tokens in order stand in order. -/
theorem pairwise (h : Placed ts ns) (ho : InOrder lower upper ts) :
    ns.Pairwise Node.Precedes := by
  induction h generalizing lower with
  | nil _ => exact .nil
  | node range covers _ behind _ ih =>
    obtain ⟨_, _, ho⟩ := inOrder_append.mp ho
    obtain ⟨_, hown, hafter⟩ := inOrder_append.mp ho
    refine .cons (fun m hm => ?_) (ih hafter)
    obtain ⟨span', hrange', hle, _⟩ := behind.between hafter hm
    obtain ⟨_, hstop, _⟩ := covers.inOrder hown
    exact ⟨_, span', range, hrange', Nat.le_trans hstop hle⟩

end Placed

/-! ## Numbers -/

/-- In a tree that is numbered in order, a number is found at the one node that has it. -/
theorem Node.find?_eq_some_iff {root : Node}
    (h : root.sequence.map Node.id = List.range root.sequence.length) (id : Nat) (n : Node) :
    root.find? id = some n ↔ n ∈ root.sequence ∧ n.id = id := by
  have hnodup : (root.sequence.map Node.id).Nodup := by
    rw [h]
    exact List.nodup_range
  unfold find?
  constructor
  · intro hfind
    exact ⟨List.mem_of_find?_eq_some hfind, by simpa using List.find?_some hfind⟩
  · rintro ⟨hn, rfl⟩
    cases hfind : root.sequence.find? (·.id == n.id) with
    | none => simpa using List.find?_eq_none.mp hfind n hn
    | some m =>
      have hm := List.mem_of_find?_eq_some hfind
      have hid : m.id = n.id := by simpa using List.find?_some hfind
      rw [List.inj_on_of_nodup_map hnodup hm hn hid]

/-! ## The whole tree -/

/-- A root over the whole source, with nodes below it that are placed over a row of tokens. -/
theorem Node.WellFormed.of_placed {row : List Token} {whole : Span} {kind : NodeKind} {cs : List Node}
    {next : Nat}
    (hplaced : Placed row cs) (hnumbered : NumberedFrom 1 cs next)
    (ho : InOrder whole.start whole.stop row) :
    Node.WellFormed ⟨0, kind, some whole, cs⟩ row := by
  have hids : (Node.sequence ⟨0, kind, some whole, cs⟩).map Node.id =
      List.range (Node.sequence ⟨0, kind, some whole, cs⟩).length := by
    obtain ⟨count, hcount, _⟩ := hnumbered
    have hlength : (sequenceAll cs).length = count := by
      rw [← List.length_map Node.id, hcount, List.length_range']
    rw [sequence_eq, List.map_cons, List.length_cons, hlength, hcount, List.range_eq_range',
      List.range'_succ]
  -- Below the root a node and the tokens of its own take the place of the root and the row.
  have hbelow : ∀ n ∈ sequenceAll cs, ∃ own span, n.range = some span ∧
      InOrder span.start span.stop own ∧ Placed own n.children := by
    intro n hn
    obtain ⟨own, span, ⟨front, back, rfl⟩, hrange, hcovers, hchildren⟩ := hplaced.exists_own hn
    obtain ⟨_, hfront, _⟩ := inOrder_append.mp ho
    obtain ⟨_, _, hown⟩ := inOrder_append.mp hfront
    exact ⟨own, span, hrange, (hcovers.inOrder hown).2.2, hchildren⟩
  have hall : ∀ n ∈ Node.sequence ⟨0, kind, some whole, cs⟩, ∃ own span,
      n.range = some span ∧ InOrder span.start span.stop own ∧ Placed own n.children := by
    intro n hn
    rw [sequence_eq, List.mem_cons] at hn
    rcases hn with rfl | hn
    · exact ⟨row, whole, rfl, ho, hplaced⟩
    · exact hbelow n hn
  refine ⟨hids, find?_eq_some_iff hids, fun n hn => ?_, fun n hn child hchild => ?_,
    fun n hn => ?_⟩
  · obtain ⟨own, span, hinfix, hrange, hcovers, _⟩ := hplaced.exists_own hn
    exact ⟨span, own, hrange, hinfix, hcovers⟩
  · obtain ⟨own, span, hrange, hown, hchildren⟩ := hall n hn
    obtain ⟨span', hrange', hle, hle'⟩ := hchildren.between hown hchild
    exact ⟨span, span', hrange, hrange', hle, hle'⟩
  · obtain ⟨own, span, _, hown, hchildren⟩ := hall n hn
    exact hchildren.pairwise hown

section

variable {source : String} {log : DiagnosticLog} {origin : Option String} {s : ReadState}
  (hdone : Grammar.header (.start source (tokenize source) log origin) = .done () s)
include hdone

/-- Behind the declarations of a source the tokens lie in it as before, and all that the parser did
    was a course. -/
theorem course_of_header :
    Course (.start source (tokenize source) log origin) s ∧ s.Within ∧
      s.sourceLength = source.utf8ByteSize := by
  have hcourse := Grammar.header_courseAt (.start source (tokenize source) log origin)
  unfold Rule.CourseAt Rule.Ends at hcourse
  rw [hdone] at hcourse
  have hforward := hcourse.passage.forward
  exact ⟨hcourse, hforward.within (within_start source log origin), hforward.sourceLength⟩

/-- The root that is left open behind the declarations of a source becomes the tree of its header,
    and this tree is well formed. -/
theorem exists_read_of_header :
    ∃ root row, s.nodes.opened = [root] ∧
      Halved (significant (tokenize source)) row ∧
      Header.read source log origin =
        .ok ⟨{ root with range := some ⟨0, s.sourceLength, Nat.zero_le _⟩ }, s.errors.toList,
          directivesOf (tokenize source), s.log⟩ ∧
      Node.WellFormed { root with range := some ⟨0, s.sourceLength, Nat.zero_le _⟩ } row := by
  obtain ⟨hcourse, ho, _⟩ := course_of_header hdone
  obtain ⟨front, kind, cs, hlays⟩ := hcourse.laid
  have hopened := hlays.opened _ _ rfl
  have hpassed : s.passed = front.reverse := by
    rw [hlays.passed]
    exact List.append_nil _
  unfold ReadState.Within at ho
  rw [hpassed, List.reverse_reverse] at ho
  have hread : Header.read source log origin =
      .ok ⟨⟨0, kind.getD .header, some ⟨0, s.sourceLength, Nat.zero_le _⟩, cs⟩, s.errors.toList,
        directivesOf (tokenize source), s.log⟩ := by
    unfold Header.read ReadState.finish NodeStack.update NodeStack.close
    simp only [hdone, hopened]
    rfl
  have hplaced : Placed (front ++ s.rest) cs := by
    have happend := hlays.placed.append (.nil s.rest)
    rwa [List.append_nil] at happend
  exact ⟨_, front ++ s.rest, hopened, hlays.rest, hread, .of_placed hplaced hlays.numbered ho⟩

end

end HeaderBridge
