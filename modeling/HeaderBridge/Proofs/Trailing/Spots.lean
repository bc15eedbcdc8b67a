/-
  A comma in front of a closing delimiter, and what reading makes of it. A `Spot` is the place of such a
  delimiter. As long as no node closes a list there and no type lies over it, the place was missed
  (`Spot.Misses`). A rule that does not miss it meets it (`Spot.Meets`): it reads what it reads up to
  the place in front of anything, and in front of the comma it comes to the same value, with one error
  more and, if the tree shows the delimiters of the list, one leaf.
-/
import HeaderBridge.Proofs.Lexical.Cutting
import HeaderBridge.Proofs.Printing.Stored
import HeaderBridge.Proofs.Trailing.Framed

namespace HeaderBridge

open ReadState (kindOf)
open Bare (bare)

/-! ## Places in a tree -/

/-- A delimiter that closes a list. -/
def NodeKind.isCloser : NodeKind → Bool
  | .token .greater | .token .rightParen => true
  | _ => false

/-- The node closes a list that the tree shows, with a delimiter that begins at the place. -/
def Node.ClosesAt (place : Nat) (n : Node) : Prop :=
  n.kind.isCloser = true ∧ n.range.map Span.start = some place

instance (place : Nat) : DecidablePred (Node.ClosesAt place) :=
  fun _ => inferInstanceAs (Decidable (_ ∧ _))

/-- The place lies in the type. -/
def TypeName.Spans (place : Nat) (t : TypeName) : Prop := t.span.start ≤ place ∧ place < t.span.stop

instance (place : Nat) : DecidablePred (TypeName.Spans place) :=
  fun _ => inferInstanceAs (Decidable (_ ∧ _))

/-- The second nodes are the first ones with a comma in front of the one that closes a list at the
    place, but for numbers and ranges. -/
inductive Node.GainsComma (place : Nat) : List Node → List Node → Prop where
  | here {n comma : Node} {ns ns' : List Node} (closes : n.ClosesAt place)
      (kind : comma.kind = .token .comma) (alone : comma.children = [])
      (rest : bare (n :: ns) = bare ns') : GainsComma place (n :: ns) (comma :: ns')
  | within {n n' : Node} {ns ns' : List Node} (kind : bare n.kind = bare n'.kind)
      (children : GainsComma place n.children n'.children) (rest : bare ns = bare ns') :
      GainsComma place (n :: ns) (n' :: ns')
  | behind {n n' : Node} {ns ns' : List Node} (first : bare n = bare n')
      (rest : GainsComma place ns ns') : GainsComma place (n :: ns) (n' :: ns')

namespace Node.GainsComma

variable {place : Nat} {ns ns' ms ms' : List Node}

theorem append_left (ms : List Node) (h : GainsComma place ns ns') :
    GainsComma place (ms ++ ns) (ms ++ ns') := by
  induction ms with
  | nil => exact h
  | cons m ms ih => exact .behind rfl ih

theorem append_right (h : GainsComma place ns ns') (hms : bare ms = bare ms') :
    GainsComma place (ns ++ ms) (ns' ++ ms') := by
  induction h with
  | @here n _ ns ns' closes kind alone rest =>
    refine .here closes kind alone ?_
    show bare ((n :: ns) ++ ms) = bare (ns' ++ ms')
    rw [bare_append, bare_append, rest, hms]
  | @within _ _ ns ns' kind children rest =>
    refine .within kind children ?_
    show bare (ns ++ ms) = bare (ns' ++ ms')
    rw [bare_append, bare_append, rest, hms]
  | behind first _ ih => exact .behind first ih

end Node.GainsComma

/-! ## Spots -/

/-- A place at which a closing delimiter begins. The tree may show the delimiters of the list. -/
structure Spot where
  place : Nat
  shown : Bool

namespace Spot

variable {spot : Spot} {ns ns' ms ms' : List Node}

/-- A type whose lists are not shown does not lie over the place. -/
def AvoidsType (spot : Spot) (t : TypeName) : Prop := spot.shown = false → ¬ t.Spans spot.place

/-- The node itself is not at the place, nor are its types over it. -/
structure Avoids (spot : Spot) (n : Node) : Prop where
  closer : spot.shown = true → ¬ n.ClosesAt spot.place
  types : ∀ t ∈ n.kind.typeNames, spot.AvoidsType t

/-- Neither the node nor what is below it is at the place. -/
def Clear (spot : Spot) (n : Node) : Prop := ∀ m ∈ n.sequence, spot.Avoids m

/-- A node of this kind is not at the place, wherever it stands. -/
structure AvoidsKind (spot : Spot) (kind : NodeKind) : Prop where
  closer : kind.isCloser = false
  types : ∀ t ∈ kind.typeNames, spot.AvoidsType t

/-- An open node, which has no range yet, has nothing at the place. -/
structure Passes (spot : Spot) (n : Node) : Prop where
  kind : spot.AvoidsKind n.kind
  children : ∀ child ∈ n.children, spot.Clear child

theorem AvoidsKind.of_nil {kind : NodeKind} (hcloser : kind.isCloser = false)
    (htypes : kind.typeNames = []) : spot.AvoidsKind kind :=
  ⟨hcloser, by rw [htypes]; exact List.forall_mem_nil _⟩

theorem AvoidsKind.avoids {n : Node} {kind : NodeKind} (h : spot.AvoidsKind kind)
    (hkind : n.kind = kind) : spot.Avoids n := by
  subst hkind
  exact ⟨fun _ hcloses => Bool.false_ne_true (h.closer.symm.trans hcloses.1), h.types⟩

theorem clear_iff (n : Node) :
    spot.Clear n ↔ spot.Avoids n ∧ ∀ child ∈ n.children, spot.Clear child := by
  have hbelow : ∀ ns : List Node, (∀ m ∈ Node.sequenceAll ns, spot.Avoids m) ↔
      ∀ child ∈ ns, spot.Clear child := by
    intro ns
    induction ns with
    | nil => simp [Node.sequenceAll]
    | cons n ns ih => rw [Node.sequenceAll, List.forall_mem_append, ih, List.forall_mem_cons, Clear]
  rw [Clear, Node.sequence_eq, List.forall_mem_cons, hbelow]

theorem Avoids.clear_leaf {id : Nat} {kind : NodeKind} {range : Option Span}
    (h : spot.Avoids ⟨id, kind, range, []⟩) : spot.Clear ⟨id, kind, range, []⟩ :=
  (clear_iff _).mpr ⟨h, List.forall_mem_nil _⟩

theorem Passes.clear {n : Node} (h : spot.Passes n) (range : Option Span) :
    spot.Clear { n with range } :=
  (clear_iff _).mpr ⟨h.kind.avoids rfl, h.children⟩

theorem Passes.withChild {n child : Node} (h : spot.Passes n) (hchild : spot.Clear child) :
    spot.Passes (NodeStack.withChild n child) :=
  ⟨h.kind, List.forall_mem_append.mpr ⟨h.children, List.forall_mem_singleton.mpr hchild⟩⟩

theorem Passes.begin {kind : NodeKind} (h : spot.AvoidsKind kind) (id : Nat) :
    spot.Passes ⟨id, kind, none, []⟩ :=
  ⟨h, List.forall_mem_nil _⟩

/-- The second nodes are the first ones, with the comma if the tree shows it. -/
structure Extends (spot : Spot) (ns ns' : List Node) : Prop where
  shown : spot.shown = true → Node.GainsComma spot.place ns ns'
  hidden : spot.shown = false → bare ns = bare ns'

theorem Extends.append_left (ms : List Node) (h : spot.Extends ns ns') :
    spot.Extends (ms ++ ns) (ms ++ ns') :=
  ⟨fun hs => (h.shown hs).append_left ms, fun hs => by rw [bare_append, bare_append, h.hidden hs]⟩

theorem Extends.append_right (h : spot.Extends ns ns') (hms : bare ms = bare ms') :
    spot.Extends (ns ++ ms) (ns' ++ ms') :=
  ⟨fun hs => (h.shown hs).append_right hms, fun hs => by
    rw [bare_append, bare_append, h.hidden hs, hms]⟩

/-- What is gained below a node is gained with it. -/
theorem Extends.below {n n' : Node} (hkind : bare n.kind = bare n'.kind)
    (h : spot.Extends n.children n'.children) : spot.Extends [n] [n'] :=
  ⟨fun hs => .within hkind (h.shown hs) rfl,
    fun hs => congrArg (fun m => [m]) (Node.bare_eq_iff.mpr ⟨hkind, h.hidden hs⟩)⟩

/-! ## Missing the place -/

/-- The place is one of a closing delimiter of the source, and nothing that was read so far is there. -/
structure Misses (spot : Spot) (s : ReadState) : Prop where
  sound : s.Sound
  closer : CloserAt spot.place (s.passed.reverse ++ s.rest)
  certain : s.speculating = false
  opened : ∀ n ∈ s.nodes.opened, spot.Passes n

namespace Misses

variable {s t : ReadState}

theorem of_forward (h : spot.Misses s) (hforward : Forward s t)
    (hspeculating : t.speculating = s.speculating) (hopened : ∀ n ∈ t.nodes.opened, spot.Passes n) :
    spot.Misses t := by
  refine ⟨hforward.sound h.sound, ?_, hspeculating.trans h.certain, hopened⟩
  obtain ⟨front, hpassed, hhalved⟩ := hforward.moved
  rw [hpassed, List.reverse_append, List.reverse_reverse, List.append_assoc]
  exact h.closer.halved ((Halved.refl _).append hhalved)

theorem of_reads (h : spot.Misses s) (hreads : s.Reads t) : spot.Misses t := by
  refine h.of_forward (Passage.of_reads hreads).forward ?_ ?_
  · obtain ⟨_, _, _, rfl⟩ := hreads
    rfl
  · obtain ⟨_, _, _, rfl⟩ := hreads
    exact h.opened

theorem of_nodes (h : spot.Misses s) {nodes : NodeStack} (hdepth : s.nodes.depth ≤ nodes.depth)
    (hopened : ∀ n ∈ nodes.opened, spot.Passes n) : spot.Misses { s with nodes } :=
  ⟨⟨h.sound.inOrder, Nat.lt_of_lt_of_le h.sound.opened hdepth⟩, h.closer, h.certain, hopened⟩

theorem report (h : spot.Misses s) (e : SyntaxError) : spot.Misses (s.report e) := by
  unfold ReadState.report
  split
  · exact h
  · exact ⟨⟨h.sound.inOrder, h.sound.opened⟩, h.closer, h.certain, h.opened⟩

theorem begin (h : spot.Misses s) {kind : NodeKind} (hkind : spot.AvoidsKind kind) :
    spot.Misses { s with nodes := s.nodes.begin kind } :=
  h.of_nodes (Nat.le_of_lt (Nat.lt_succ_self _))
    (List.forall_mem_cons.mpr ⟨.begin hkind _, h.opened⟩)

theorem setKind (h : spot.Misses s) {kind : NodeKind} (hkind : spot.AvoidsKind kind) :
    spot.Misses { s with nodes := s.nodes.update fun n => { n with kind } } := by
  refine h.of_nodes (Nat.le_of_eq (NodeStack.depth_update _ _).symm) ?_
  have hopened := h.opened
  unfold NodeStack.update
  cases ho : s.nodes.opened with
  | nil => simp [ho]
  | cons n outer =>
    rw [ho] at hopened
    obtain ⟨hn, houter⟩ := List.forall_mem_cons.mp hopened
    exact List.forall_mem_cons.mpr ⟨⟨hkind, hn.children⟩, houter⟩

theorem attach (h : spot.Misses s) {nodes nodes' : NodeStack} {child : Node}
    (hchild : spot.Clear child) (hattach : nodes.attach child = .ok nodes')
    (hopened : nodes.opened = s.nodes.opened) : spot.Misses { s with nodes := nodes' } := by
  have hdepth : s.nodes.depth ≤ nodes'.depth := by
    rw [NodeStack.depth_attach hattach]
    exact Nat.le_of_eq (congrArg List.length hopened.symm)
  refine h.of_nodes hdepth ?_
  have hnodes := h.opened
  obtain ⟨n, outer, ho, rfl⟩ := NodeStack.attach_cases hattach
  rw [← hopened, ho] at hnodes
  obtain ⟨hn, houter⟩ := List.forall_mem_cons.mp hnodes
  exact List.forall_mem_cons.mpr ⟨hn.withChild hchild, houter⟩

theorem close (h : spot.Misses s) {start position depth : Nat}
    (hclose : Rule.closeNode start position depth s = .ok t) : spot.Misses t := by
  obtain ⟨n, parent, outer, range, ho, -, -, rfl⟩ := Rule.closeNode_cases hclose
  have hnodes := h.opened
  rw [ho] at hnodes
  obtain ⟨hn, hnodes⟩ := List.forall_mem_cons.mp hnodes
  obtain ⟨hparent, houter⟩ := List.forall_mem_cons.mp hnodes
  exact ⟨⟨h.sound.inOrder, Nat.succ_pos _⟩, h.closer, h.certain,
    List.forall_mem_cons.mpr ⟨hparent.withChild (hn.clear _), houter⟩⟩

end Misses

end Spot

namespace Rule

variable {α β : Type} {spot : Spot} {s : ReadState} {P : β → Prop} {Q Q' : α → Prop}

/-- The rule passes nothing that is at the place, and its value is one of which `Q` holds. -/
def MissesAt (spot : Spot) (Q : α → Prop) (r : Rule α) (s : ReadState) : Prop :=
  spot.Misses s → Ends True r s (fun a t => spot.Misses t ∧ Q a) fun _ t => spot.Misses t

/-- Nothing is said of the value. -/
abbrev PassesBy (spot : Spot) (r : Rule α) (s : ReadState) : Prop := MissesAt spot (fun _ => True) r s

namespace MissesAt

theorem bind {r : Rule β} {f : β → Rule α} (h : MissesAt spot P r s)
    (hf : ∀ b t, P b → MissesAt spot Q (f b) t) : MissesAt spot Q (r >>= f) s :=
  fun hs => ends_bind.mpr ((h hs).mono (fun b t hb => hf b t hb.2 hb.1) fun _ _ h => h)

theorem pure {a : α} (h : Q a) : MissesAt spot Q (pure a) s := fun hs => ⟨hs, h⟩

theorem state {f : ReadState → Rule α} (h : MissesAt spot Q (f s) s) :
    MissesAt spot Q (Rule.state >>= f) s := fun hs => ends_bind.mpr (h hs)

theorem ite {c : Prop} [Decidable c] {r r' : Rule α} (h : c → MissesAt spot Q r s)
    (h' : ¬ c → MissesAt spot Q r' s) : MissesAt spot Q (if c then r else r') s :=
  fun hs => ends_ite.mpr ⟨fun hc => h hc hs, fun hc => h' hc hs⟩

theorem breakWith (fault : Fault) : MissesAt spot Q (breakWith fault : Rule α) s := fun _ => trivial

theorem failHere (cause : SyntaxError.Cause) : MissesAt spot Q (failHere cause : Rule α) s :=
  fun hs => hs

theorem modify {change : ReadState → ReadState} (h : spot.Misses s → spot.Misses (change s)) :
    PassesBy spot (Rule.modify change) s := fun hs => ⟨h hs, trivial⟩

theorem reads {change : ReadState → ReadState} (h : s.Reads (change s)) :
    PassesBy spot (Rule.modify change) s := modify fun hs => hs.of_reads h

theorem enter (inOptional : Bool) (s : ReadState) :
    PassesBy spot (Rule.modify fun s => { s with inOptional }) s :=
  modify fun hs => ⟨⟨hs.sound.inOrder, hs.sound.opened⟩, hs.closer, hs.certain, hs.opened⟩

theorem setKind {kind : NodeKind} (h : spot.AvoidsKind kind) (s : ReadState) :
    PassesBy spot (Rule.setKind kind) s := modify fun hs => hs.setKind h

/-! ### Tokens -/

theorem advance (s : ReadState) : PassesBy spot Rule.advance s :=
  fun hs => ⟨hs.of_reads (.advance s), trivial⟩

theorem eat (kind : TokenKind) (s : ReadState) : PassesBy spot (Rule.eat kind) s := fun hs =>
  ends_eat.mpr ⟨fun _ => ⟨hs.of_reads (.advance s), trivial⟩, fun _ => ⟨hs, trivial⟩⟩

theorem expect (kind : TokenKind) (cause : SyntaxError.Cause) (s : ReadState) :
    PassesBy spot (Rule.expect kind cause) s := fun hs =>
  ends_expect.mpr ⟨fun _ => ⟨hs.of_reads (.advance s), trivial⟩, fun _ => hs⟩

theorem identifier (cause : SyntaxError.Cause) (s : ReadState) :
    PassesBy spot (Rule.identifier cause) s := fun hs =>
  ends_identifier.mpr ⟨fun _ => ⟨hs.of_reads (.advance s), trivial⟩, fun _ => hs⟩

theorem recover {r : Rule α} (h : MissesAt spot Q r s) (sync : TokenKind → Bool) :
    PassesBy spot (Rule.recover r sync) s := by
  intro hs
  have hr := h hs
  unfold Ends at hr ⊢
  unfold Rule.recover
  cases he : r s with
  | done a t => rw [he] at hr; exact ⟨hr.1, trivial⟩
  | failed e t =>
    rw [he] at hr
    exact ⟨(hr.report e).of_reads (.skipUntil sync _), trivial⟩
  | broken fault => trivial

/-! ### Leaves -/

theorem leaf {kind : NodeKind} {span : Span}
    (h : ∀ id, spot.Avoids ⟨id, kind, some span, []⟩) (s : ReadState) :
    PassesBy spot (Rule.leaf kind span) s := fun hs =>
  ends_leaf.mpr fun _ hattach => ⟨hs.attach (h _).clear_leaf hattach rfl, trivial⟩

theorem leafFrom {kind : NodeKind} (h : spot.AvoidsKind kind) (start : Nat) (s : ReadState) :
    PassesBy spot (Rule.leafFrom kind start) s := by
  refine state ?_
  cases Span.between start s.lastEnd with
  | error fault => exact breakWith fault
  | ok span => exact leaf (fun _ => h.avoids rfl) s

theorem keywordHere (s : ReadState) : PassesBy spot Rule.keywordHere s := by
  have hkind : spot.AvoidsKind (.keyword s.current) := .of_nil rfl rfl
  exact state ((advance s).bind fun _ t _ => leaf (fun _ => hkind.avoids rfl) t)

theorem punctuationHere (h : (NodeKind.token s.current).isCloser = false) :
    PassesBy spot Rule.punctuationHere s := by
  have hkind : spot.AvoidsKind (.token s.current) := .of_nil h rfl
  exact state ((advance s).bind fun _ t _ => leaf (fun _ => hkind.avoids rfl) t)

theorem expectLeaf {node : NodeKind} (h : spot.AvoidsKind node) (kind : TokenKind)
    (cause : SyntaxError.Cause) (s : ReadState) :
    PassesBy spot (Rule.expect kind cause >>= Rule.leaf node) s :=
  (expect kind cause s).bind fun _ t _ => leaf (fun _ => h.avoids rfl) t

/-! ### Lists -/

theorem splitCloser (closing : TokenKind) (s : ReadState) :
    PassesBy spot (Rule.splitCloser closing) s := fun hs =>
  Ends.splitCloser (fun _ => ⟨hs, trivial⟩) fun _ hr hv =>
    ⟨hs.of_forward (Passage.halve hr hv).forward rfl hs.opened, trivial⟩

end MissesAt

end Rule

/-! ## Meeting the place -/

/-- Where two rules agree and the first one succeeds, the second one does the same. -/
theorem Rule.AgreeAt.ends {α : Type} [Bare α] {r r' : Rule α} {t t' u : ReadState} {a : α}
    (h : Rule.AgreeAt none r r' t t') (halike : Alike none t t') (hdone : r t = .done a u) :
    Rule.Ends True r' t' (fun a' u' => bare a = bare a' ∧ Alike none u u' ∧ SameGain t u t' u')
      fun _ _ => False := by
  have hagreed := h.agreed halike (not_ranOut_none _)
  rw [hdone] at hagreed
  unfold Rule.Ends
  generalize r' t' = o' at hagreed
  cases hagreed with
  | brokenToo _ fault => trivial
  | doneOut _ _ out => exact absurd out (not_ranOut_none _)
  | done values halike' gain => exact ⟨values, halike', gain⟩

namespace Spot

variable {spot : Spot} {s t u t' u' : ReadState}

/-- What two parsers have read is the same but for places, up to the comma and the error that it
    costs. -/
structure Adds (spot : Spot) (t t' : ReadState) : Prop where
  nodes : ∃ n n' outer, t.nodes.opened = n :: outer ∧ t'.nodes.opened = n' :: outer ∧
    bare n.kind = bare n'.kind ∧ spot.Extends n.children n'.children
  errors : t'.errors.toList.map SyntaxError.cause =
    t.errors.toList.map SyntaxError.cause ++ [.itemAfterComma]

theorem Adds.gain (h : spot.Adds t t') (hgain : SameGain t u t' u')
    (hsize : u.errors.size = t.errors.size) : spot.Adds u u' := by
  obtain ⟨⟨n, n', outer, hopened, hopened', hkind, hextends⟩, herrors⟩ := h
  obtain ⟨⟨k, cs, k', cs', hgrows, hgrows', hk, hcs⟩, es, es', he, he', hes⟩ := hgain
  refine ⟨⟨_, _, outer, hgrows n outer hopened, hgrows' n' outer hopened', bare_getD hk hkind,
    hextends.append_right hcs⟩, ?_⟩
  have hnil : es = [] := by
    have hlength := congrArg List.length he
    rw [List.length_append, Array.length_toList, Array.length_toList, hsize] at hlength
    exact List.length_eq_zero_iff.mp (Nat.left_eq_add.mp hlength)
  rw [hnil] at hes
  rw [he', List.map_eq_nil_iff.mp hes.symm, List.append_nil, herrors, he, hnil, List.append_nil]

/-- What is added below a node that is closed is added with it. -/
theorem Adds.close {start position depth start' position' depth' : Nat} (h : spot.Adds t t')
    (hclose : Rule.closeNode start position depth t = .ok u)
    (hclose' : Rule.closeNode start' position' depth' t' = .ok u') : spot.Adds u u' := by
  obtain ⟨⟨n, n', outer, hopened, hopened', hkind, hextends⟩, herrors⟩ := h
  obtain ⟨_, parent, rest, range, ho, -, -, rfl⟩ := Rule.closeNode_cases hclose
  obtain ⟨_, parent', rest', range', ho', -, -, rfl⟩ := Rule.closeNode_cases hclose'
  rw [hopened] at ho
  rw [hopened'] at ho'
  obtain ⟨rfl, rfl⟩ := List.cons.inj ho
  obtain ⟨rfl, houter⟩ := List.cons.inj ho'
  obtain ⟨rfl, rfl⟩ := List.cons.inj houter
  have hclosed : spot.Extends [{ n with range }] [{ n' with range := range' }] :=
    .below hkind hextends
  exact ⟨⟨_, _, rest, rfl, rfl, rfl, hclosed.append_left parent.children⟩, herrors⟩

/-- The rule comes to the value and the state after it has passed the place. In front of the place it
    does not depend on what follows, and with a comma there it does the same, but for one error. -/
def Meets {α : Type} [Bare α] (spot : Spot) (r' : Rule α) (s : ReadState) (a : α) (t : ReadState) :
    Prop :=
  ∃ p w, s.rest = p ++ w ∧ OpensAhead p ∧ StartsAt spot.place w ∧
    ∀ w' o, Parted spot.place w w' → Rule.Ends True r' (s.onto (p ++ w') o)
      (fun a' t' => bare a = bare a' ∧ Alike none t t' ∧ spot.Adds t t') fun _ _ => False

namespace Meets

open Rule

variable {α β : Type} [Bare α] {f f' : β → Rule α} {a : α} {b : β}

/-- What follows behind the place is read alike. -/
theorem bind_left [Bare β] {r' : Rule β} (h : spot.Meets r' s b t) (hneat : Neatly (f b) t a u)
    (hagree : ∀ b' t', bare b = bare b' → AgreeAt none (f b) (f' b') t t') :
    spot.Meets (r' >>= f') s a u := by
  obtain ⟨p, w, hrow, hopens, hstarts, hrun⟩ := h
  refine ⟨p, w, hrow, hopens, hstarts, fun w' o hparted => ends_bind.mpr ?_⟩
  refine (hrun w' o hparted).mono (fun b' t' ⟨hb, halike, hadds⟩ => ?_) fun _ _ h => h
  exact ((hagree b' t' hb).ends halike hneat.done).mono
    (fun _ _ h => ⟨h.1, h.2.1, hadds.gain h.2.2 hneat.errors⟩) fun _ _ h => h

/-- What stands in front of the place is read alike. -/
theorem bind_right {r r' : Rule β} (hframes : FramesAt ahead r r' s) (hneat : Neatly r s b t)
    (h : spot.Meets (f' b) t a u) : spot.Meets (r' >>= f') s a u := by
  obtain ⟨q, w, hrow, hopens, hstarts, hrun⟩ := h
  obtain ⟨p, hp, hopens', hfirst⟩ := hframes.frames hneat hrow hopens trivial
  refine ⟨p, w, hp, hopens', hstarts, fun w' o hparted => ?_⟩
  have hrest := hrun w' o hparted
  unfold Ends at hrest ⊢
  rcases hfirst w' o trivial with ⟨fault, hbroken⟩ | hdone
  · rw [bind_of_broken hbroken]
    trivial
  · rwa [bind_of_done hdone]

theorem recover [Bare β] {r' : Rule β} (h : spot.Meets r' s b t) (sync : TokenKind → Bool) :
    spot.Meets (Rule.recover r' sync) s (.valid b) t := by
  obtain ⟨p, w, hrow, hopens, hstarts, hrun⟩ := h
  refine ⟨p, w, hrow, hopens, hstarts, fun w' o hparted => ?_⟩
  have hrun := hrun w' o hparted
  unfold Ends at hrun ⊢
  unfold Rule.recover
  cases hr : r' (s.onto (p ++ w') o) with
  | done b' t' => rw [hr] at hrun; exact ⟨congrArg Slot.valid hrun.1, hrun.2⟩
  | failed e t' => rw [hr] at hrun; exact hrun.elim
  | broken fault => trivial

theorem rescue {r r₁ : Rule α} (h : spot.Meets r s a t) (hrescues : Rescues r₁ r) :
    spot.Meets r₁ s a t := by
  obtain ⟨p, w, hrow, hopens, hstarts, hrun⟩ := h
  refine ⟨p, w, hrow, hopens, hstarts, fun w' o hparted => ?_⟩
  have hrun := hrun w' o hparted
  unfold Ends at hrun ⊢
  cases hr : r (s.onto (p ++ w') o) with
  | done a' t' => rw [hr] at hrun; rw [hrescues.done hr]; exact hrun
  | failed e t' => rw [hr] at hrun; exact hrun.elim
  | broken fault => rw [hrescues.broken hr]; trivial

/-- A node is closed behind the place as it is without the comma. -/
theorem withNode {r' : Rule α} {kind : NodeKind} {start position depth : Nat}
    (h : spot.Meets r' { s with nodes := s.nodes.begin kind } a t)
    (hclose : closeNode start position depth t = .ok u) :
    spot.Meets (Rule.withNode kind r') s a u := by
  obtain ⟨p, w, hrow, hopens, hstarts, hrun⟩ := h
  refine ⟨p, w, hrow, hopens, hstarts, fun w' o hparted => ?_⟩
  refine ends_withNode (hrun w' o hparted) (fun a' t' u' ⟨hvalues, halike, hadds⟩ hclose' => ?_)
    fun _ _ _ h _ => h
  exact ⟨hvalues, AgreeAt.alike_close halike hclose hclose', hadds.close hclose hclose'⟩

end Meets

end Spot

namespace Rule

variable {α β : Type} [Bare α] {spot : Spot} {s : ReadState} {P : β → Prop} {Q : α → Prop}

/-- Where the first rule is read without an error, it misses the place, or the second rule meets
    it. -/
structure MeetsAt (spot : Spot) (Q : α → Prop) (r r' : Rule α) (s : ReadState) : Prop where
  keeps : Keeping r s
  meets : ∀ {a t}, spot.Misses s → Neatly r s a t →
    (spot.Misses t ∧ Q a) ∨ spot.Meets r' s a t

namespace MeetsAt

theorem of_misses {r r' : Rule α} (hkeeps : Keeping r s) (h : MissesAt spot Q r s) :
    MeetsAt spot Q r r' s :=
  ⟨hkeeps, fun hs hneat => .inl ((h hs).of_done hneat.done)⟩

theorem of_not_neatly {r r' : Rule α} (hkeeps : Keeping r s) (h : ∀ a t, ¬ Neatly r s a t) :
    MeetsAt spot Q r r' s :=
  ⟨hkeeps, fun _ hneat => absurd hneat (h _ _)⟩

/-- The first part may meet the place, given what follows it, or else the second one. -/
theorem bindNeat [Bare β] {r r' : Rule β} {f f' : β → Rule α} (hframes : FramesAt ahead r r' s)
    (h : ∀ {b t a u}, spot.Misses s → Neatly r s b t → Neatly (f b) t a u →
      (spot.Misses t ∧ P b) ∨ spot.Meets r' s b t)
    (hf : ∀ b t, P b → MeetsAt spot Q (f b) (f' b) t)
    (hagree : ∀ b b' t t', bare b = bare b' → AgreeAt none (f b) (f' b') t t') :
    MeetsAt spot Q (r >>= f) (r' >>= f') s := by
  have hk : ∀ b t, Keeping (f b) t := fun b t => (hagree b b t t rfl).keeps
  refine ⟨hframes.keeps.bind hk, fun hs hneat => ?_⟩
  obtain ⟨b, t, hfirst, hsecond⟩ := hneat.of_bind hframes.keeps hk
  rcases h hs hfirst hsecond with ⟨ht, hb⟩ | hmeets
  · exact ((hf b t hb).meets ht hsecond).imp_right fun h => .bind_right hframes hfirst h
  · exact .inr (hmeets.bind_left hsecond fun b' t' hb => hagree b b' t t' hb)

/-- The first part may meet the place, or else the second one. -/
theorem bind [Bare β] {r r' : Rule β} {f f' : β → Rule α} (h : MeetsAt spot P r r' s)
    (hframes : FramesAt ahead r r' s) (hf : ∀ b t, P b → MeetsAt spot Q (f b) (f' b) t)
    (hagree : ∀ b b' t t', bare b = bare b' → AgreeAt none (f b) (f' b') t t') :
    MeetsAt spot Q (r >>= f) (r' >>= f') s :=
  bindNeat hframes (fun hs hneat _ => h.meets hs hneat) hf hagree

theorem map [Bare β] {r r' : Rule β} {f : β → α} (h : MeetsAt spot P r r' s)
    (hframes : FramesAt ahead r r' s) (hQ : ∀ b, P b → Q (f b))
    (hf : ∀ b b', bare b = bare b' → bare (f b) = bare (f b')) :
    MeetsAt spot Q (f <$> r) (f <$> r') s :=
  h.bind hframes (fun b t hb => of_misses (.refl t) (.pure (hQ b hb)))
    fun b b' t t' hb => .pure (hf b b' hb) t t'

/-- The first part passes the place by, so the second one may meet it. -/
theorem bindPassing {r r' : Rule β} {f f' : β → Rule α} (h : PassesBy spot r s)
    (hframes : FramesAt ahead r r' s) (hf : ∀ b t, MeetsAt spot Q (f b) (f' b) t) :
    MeetsAt spot Q (r >>= f) (r' >>= f') s := by
  have hk : ∀ b t, Keeping (f b) t := fun b t => (hf b t).keeps
  refine ⟨hframes.keeps.bind hk, fun hs hneat => ?_⟩
  obtain ⟨b, t, hfirst, hsecond⟩ := hneat.of_bind hframes.keeps hk
  exact ((hf b t).meets ((h hs).of_done hfirst.done).1 hsecond).imp_right
    fun h => .bind_right hframes hfirst h

theorem state {f f' : ReadState → Rule α}
    (h : ∀ s', FramesAt.Looks s s' → MeetsAt spot Q (f s) (f' s') s) :
    MeetsAt spot Q (Rule.state >>= f) (Rule.state >>= f') s := by
  refine ⟨(h s .refl).keeps, fun {a t} hs hneat => ?_⟩
  by_cases hmisses : spot.Misses t ∧ Q a
  · exact .inl hmisses
  refine .inr ?_
  obtain ⟨p, w, hrow, hopens, hstarts, -⟩ :=
    ((h s .refl).meets hs hneat.of_state).resolve_left hmisses
  refine ⟨p, w, hrow, hopens, hstarts, fun w' o hparted => ?_⟩
  obtain ⟨p', w'', hrow', -, hstarts', hrun⟩ :=
    ((h _ (.onto hrow hopens w' o)).meets hs hneat.of_state).resolve_left hmisses
  obtain ⟨upper, hall⟩ := hs.sound.inOrder
  obtain ⟨_, -, hinOrder⟩ := inOrder_append.mp hall
  rw [hrow] at hinOrder
  obtain ⟨rfl, rfl⟩ := hstarts.unique hstarts' (hrow.symm.trans hrow') hinOrder
  exact hrun w' o hparted

theorem ite {c c' : Prop} [Decidable c] [Decidable c'] {r₁ r₂ r₁' r₂' : Rule α} (hc : c ↔ c')
    (h : c → MeetsAt spot Q r₁ r₁' s) (h' : ¬ c → MeetsAt spot Q r₂ r₂' s) :
    MeetsAt spot Q (if c then r₁ else r₂) (if c' then r₁' else r₂') s := by
  by_cases hcase : c
  · rw [if_pos hcase, if_pos (hc.mp hcase)]
    exact h hcase
  · rw [if_neg hcase, if_neg fun h => hcase (hc.mpr h)]
    exact h' hcase

theorem breakWith (fault : Fault) (r' : Rule α) : MeetsAt spot Q (Rule.breakWith fault) r' s :=
  of_misses trivial (.breakWith fault)

theorem onFuel {r : Rule α} {f : Nat → Rule α} (fuel : Nat)
    (hzero : f 0 = Rule.breakWith .exhausted) (h : ∀ fuel, MeetsAt spot Q r (f (fuel + 1)) s) :
    MeetsAt spot Q r (f fuel) s := by
  cases fuel with
  | zero =>
    refine ⟨(h 0).keeps, fun hs hneat => ((h 0).meets hs hneat).imp_right ?_⟩
    rintro ⟨p, w, hrow, hopens, hstarts, -⟩
    rw [hzero]
    exact ⟨p, w, hrow, hopens, hstarts, fun _ _ _ => trivial⟩
  | succ fuel => exact h fuel

theorem withNode {r r' : Rule α} {kind : NodeKind} (hkind : spot.AvoidsKind kind)
    (h : MeetsAt spot Q r r' { s with nodes := s.nodes.begin kind }) :
    MeetsAt spot Q (Rule.withNode kind r) (Rule.withNode kind r') s := by
  refine ⟨.withNode h.keeps, fun hs hneat => ?_⟩
  obtain ⟨t, hinner, hclose⟩ := hneat.of_withNode
  exact (h.meets (hs.begin hkind) hinner).imp (fun h => ⟨h.1.close hclose, h.2⟩)
    fun h => h.withNode hclose

theorem rescue {r r' r₁ r₁' : Rule α} (h : MeetsAt spot Q r r' s) (hkeeps : Keeping r₁ s)
    (hrescues : Rescues r₁ r) (hrescues' : Rescues r₁' r') : MeetsAt spot Q r₁ r₁' s :=
  ⟨hkeeps, fun hs hneat => (h.meets hs (hneat.of_rescues hrescues h.keeps)).imp_right
    fun h => h.rescue hrescues'⟩

end MeetsAt

end Rule

end HeaderBridge
