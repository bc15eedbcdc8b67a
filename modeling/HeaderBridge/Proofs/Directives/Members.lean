/-
  What becomes of the directives among the members of a declaration. The loop over members makes
  turns (`Members`): each reads a token and what belongs to it, and lays its nodes over them. No turn
  passes over a directive except in the attributes of a method, so every other `@property` starts a
  property of its own (`Members.find`).
-/
import HeaderBridge.Proofs.Directives.Rules
import HeaderBridge.Proofs.Recovery.Reaching
import HeaderBridge.Proofs.Tree.WellFormed
import Mathlib.Data.List.Pairwise

namespace HeaderBridge

open ReadState (kindOf)
open Rule

/-! ## Nodes over a token -/

/-- The first thing in the node is the leaf of this directive. -/
def Node.StartsWith (n : Node) (t : Token) : Prop :=
  ∃ id rest, n.children = ⟨id, .keyword t.kind, some t.span, []⟩ :: rest

/-- The token stands in the range of the node. -/
def Node.Spans (n : Node) (t : Token) : Prop :=
  ∃ span, n.range = some span ∧ span.start ≤ t.span.start ∧ t.span.stop ≤ span.stop

theorem InOrder.mem {lower upper : Nat} {t : Token} {ts : List Token} (h : InOrder lower upper ts)
    (ht : t ∈ ts) :
    lower ≤ t.span.start ∧ t.span.start < t.span.stop ∧ t.span.stop ≤ upper := by
  obtain ⟨before, after, rfl⟩ := List.append_of_mem ht
  obtain ⟨_, hbefore, hafter⟩ := inOrder_append.mp h
  exact ⟨Nat.le_trans hbefore.le hafter.1, hafter.2.1, hafter.2.2.2.le⟩

theorem InOrder.infix {lower upper : Nat} {ts us : List Token} (h : InOrder lower upper ts)
    (hus : us <:+: ts) : ∃ lower' upper', InOrder lower' upper' us := by
  obtain ⟨before, after, rfl⟩ := hus
  obtain ⟨_, hfront, _⟩ := inOrder_append.mp h
  obtain ⟨_, _, hmiddle⟩ := inOrder_append.mp hfront
  exact ⟨_, _, hmiddle⟩

theorem Node.spans_of_covers {lower upper : Nat} {n : Node} {t : Token} {span : Span}
    {own : List Token} (hrange : n.range = some span) (hcovers : Covers span own)
    (ho : InOrder lower upper own) (ht : t ∈ own) : n.Spans t := by
  obtain ⟨hle, _, hle'⟩ := (hcovers.inOrder ho).2.2.mem ht
  exact ⟨span, hrange, hle, hle'⟩

namespace Placed

variable {lower upper : Nat} {ts : List Token} {ns : List Node} {n m : Node} {t : Token}

/-- A node stands over the directive that it starts with. -/
theorem spans_of_startsWith (h : Placed ts ns) (ho : InOrder lower upper ts) (hn : n ∈ ns)
    (hstarts : n.StartsWith t) : n.Spans t := by
  obtain ⟨id, rest, hchildren⟩ := hstarts
  have hmem : n ∈ Node.sequenceAll ns := by
    obtain ⟨front, back, rfl⟩ := List.append_of_mem hn
    rw [Node.sequenceAll_append, Node.sequenceAll, Node.sequence_eq]
    simp
  obtain ⟨own, span, hinfix, hrange, hcovers, hbelow⟩ := h.exists_own hmem
  obtain ⟨_, _, hown⟩ := ho.infix hinfix
  obtain ⟨span', hrange', hle, hle'⟩ := hbelow.between (hcovers.inOrder hown).2.2
    (show (⟨id, .keyword t.kind, some t.span, []⟩ : Node) ∈ n.children by rw [hchildren]; simp)
  obtain rfl : t.span = span' := Option.some.inj hrange'
  exact ⟨span, hrange, hle, hle'⟩

/-- Over a token stands one of the nodes only. -/
theorem eq_of_spans (h : Placed ts ns) (ho : InOrder lower upper ts) (hn : n ∈ ns) (hm : m ∈ ns)
    (hns : n.Spans t) (hms : m.Spans t) (ht : t.span.start < t.span.stop) : n = m := by
  by_contra hne
  have hapart : ns.Pairwise fun n m => n.Precedes m ∨ m.Precedes n :=
    (h.pairwise ho).imp Or.inl
  obtain ⟨span, hrange, hle, hle'⟩ := hns
  obtain ⟨span', hrange', hle₁, hle₁'⟩ := hms
  have : Std.Symm fun n m : Node => n.Precedes m ∨ m.Precedes n := ⟨fun _ _ => Or.symm⟩
  rcases hapart.forall hn hm hne with
    ⟨_, _, hr, hr', hbefore⟩ | ⟨_, _, hr, hr', hbefore⟩
  · obtain rfl := Option.some.inj (hrange.symm.trans hr)
    obtain rfl := Option.some.inj (hrange'.symm.trans hr')
    omega
  · obtain rfl := Option.some.inj (hrange'.symm.trans hr)
    obtain rfl := Option.some.inj (hrange.symm.trans hr')
    omega

end Placed

/-! ## Nodes that start with a token -/

section Laying

variable {α : Type} {w : Watch} {allowed : NodeKind → Prop} {s s' : ReadState} {t : Token}
  {rest : List Token}

/-- A leaf over the current token. -/
theorem ends_leafHere (hr : s.rest = t :: rest) (kind : NodeKind) :
    Ends True (leaf kind s.currentSpan) s.advance
      (fun _ s' => Lays s [t] none [⟨s.nodes.nextId, kind, some t.span, []⟩] s')
      fun _ _ => False := by
  rw [ReadState.advance_of_cons hr, ReadState.currentSpan_of_cons hr]
  exact ends_leaf.mpr fun _ hn => .leaf hr ⟨by simp, rfl, rfl⟩ hn

theorem ends_keywordHere (hr : s.rest = t :: rest) : Ends True keywordHere s
    (fun _ s' => Lays s [t] none [⟨s.nodes.nextId, .keyword t.kind, some t.span, []⟩] s')
    fun _ _ => False := by
  rw [← ReadState.current_of_cons hr]
  exact ends_leafHere hr (.keyword s.current)

/-- A node that was opened in front of a token is closed over it and over what was read behind it. -/
theorem Lays.close_over {opening : NodeKind} {inside : List Token} {kind : Option NodeKind}
    {cs : List Node} (h : Lays { s with nodes := s.nodes.begin opening } (t :: inside) kind cs s')
    {v : ReadState} (hclose : closeNode s.currentSpan.start s.position s.nodes.depth s' = .ok v) :
    ∃ span, Covers span (t :: inside) ∧
      Lays s (t :: inside) none [⟨s.nodes.nextId, kind.getD opening, some span, cs⟩] v := by
  refine h.close ?_ hclose
  have hpassed : s'.passed = (t :: inside).reverse ++ s.passed := h.passed
  unfold ReadState.position
  rw [hpassed]
  simp only [List.length_append, List.length_reverse, List.length_cons]
  omega

/-- A node was laid that starts with a token and a leaf over it, and that may be what it is. Behind
    the token no wanted directive was passed over at a place that is not hidden. -/
def LaysNode (w : Watch) (allowed : NodeKind → Prop) (t : Token) (first : NodeKind)
    (s s' : ReadState) : Prop :=
  ∃ inside n span, Lays s (t :: inside) none [n] s' ∧ allowed n.kind ∧ n.range = some span ∧
    Covers span (t :: inside) ∧ w.Misses inside ∧
    ∃ id more, n.children = ⟨id, first, some t.span, []⟩ :: more

theorem ends_withNode_lays {opening first : NodeKind} {id : Nat} {lead : Rule Unit}
    {f : Unit → Rule α} (hallowed : allowed opening)
    (hlead : Ends True lead { s with nodes := s.nodes.begin opening }
      (fun _ s₁ => Lays { s with nodes := s.nodes.begin opening } [t] none
        [⟨id, first, some t.span, []⟩] s₁) fun _ _ => False)
    (hcourse : ∀ s₁, CourseAt (f ()) s₁) (hpasses : ∀ s₁, PassesAt w allowed (f ()) s₁) :
    Ends True (withNode opening (lead >>= f)) s (fun _ s' => LaysNode w allowed t first s s')
      fun _ s' => LaysNode w allowed t first s s' := by
  let Behind (u : ReadState) : Prop := ∃ s₁, Lays { s with nodes := s.nodes.begin opening } [t] none
    [⟨id, first, some t.span, []⟩] s₁ ∧ Course s₁ u ∧ Passes w allowed s₁ u
  have hinner : Ends True (lead >>= f) { s with nodes := s.nodes.begin opening }
      (fun _ u => Behind u) fun _ u => Behind u :=
    ends_bind.mpr (hlead.mono (fun _ s₁ hfirst => ((hcourse s₁).and (hpasses s₁)).mono
      (fun _ _ hu => ⟨s₁, hfirst, hu⟩) fun _ _ hu => ⟨s₁, hfirst, hu.1.1, hu.2⟩)
      fun _ _ hfalse => hfalse.elim)
  have close : ∀ {u v : ReadState}, Behind u →
      closeNode s.currentSpan.start s.position s.nodes.depth u = .ok v →
      LaysNode w allowed t first s v := by
    rintro u v ⟨s₁, hfirst, hcourse, hpasses⟩ hclose
    obtain ⟨inside, kind, cs, hlays, hmisses, hkind⟩ := hpasses.lays hcourse
    obtain ⟨span, hcovers, hnode⟩ := (hfirst.trans hlays).close_over hclose
    refine ⟨inside, _, span, hnode, ?_, rfl, hcovers, hmisses, id, cs, rfl⟩
    cases kind with
    | none => exact hallowed
    | some k => exact hkind k rfl
  exact ends_withNode hinner (fun _ _ _ hu hclose => close hu hclose) fun _ _ _ hu hclose =>
    close hu hclose

/-- A token of which nothing is made. -/
theorem Lays.next (hr : s.rest = t :: rest) : Lays s [t] none [] s.advance := by
  rw [ReadState.advance_of_cons hr]
  exact .of_nodes rfl (by rw [hr]; exact .refl _) rfl

/-- Skipping passes over tokens at which it does not stop. -/
theorem lays_skipUntil (stop : TokenKind → Bool) (s : ReadState) : ∃ skipped,
    Lays s skipped none [] (s.skipUntil stop) ∧ s.rest = skipped ++ (s.skipUntil stop).rest ∧
    (∀ t ∈ skipped, stop t.kind = false) ∧
    ((s.skipUntil stop).rest = [] ∨ stop (s.skipUntil stop).current = true) := by
  obtain ⟨skipped, rest, hrest, hskip, hgo, hstop⟩ :=
    ReadState.Reads.readWhile_spec (fun ts => !stop (kindOf ts)) s
  rw [show s.skipUntil stop = _ from hskip]
  refine ⟨skipped, .of_nodes rfl (by rw [hrest]; exact .refl _) rfl, hrest, fun t ht => ?_, ?_⟩
  · obtain ⟨before, after, he⟩ := List.append_of_mem ht
    simpa using hgo before t after he
  · simpa using hstop

theorem lays_reportThenSkip (stop : TokenKind → Bool) (s : ReadState) (e : SyntaxError) :
    ∃ skipped, Lays s skipped none [] ((s.report e).skipUntil stop) ∧
      ∀ t ∈ skipped, stop t.kind = false := by
  obtain ⟨log, errors, hreport⟩ := s.report_eq e
  rw [hreport]
  obtain ⟨skipped, h, _, hstop, _⟩ := lays_skipUntil stop { s with log, errors }
  exact ⟨skipped, ⟨h.passed, h.rest, h.opened, h.placed, h.numbered⟩, hstop⟩

end Laying

namespace Grammar

/-! ## Turns -/

/-- Every directive, wherever it stands. -/
def directives : Watch where
  wanted := TokenKind.isAtKeyword
  hidden _ := False
  directive _ := id
  behind _ _ := id

/-- Every directive that does not stand in a group behind a word. -/
def directivesOutsideGroups : Watch where
  wanted := TokenKind.isAtKeyword
  hidden := InGroup
  directive _ := id
  behind front _ := InGroup.behind front

/-- What the loop over members makes of a token and of the tokens behind it in one turn. -/
inductive MemberTurn (t : Token) (inside : List Token) (ns : List Node) : Prop where
  | property {n : Node} (only : ns = [n]) (kind : isProperty n.kind) (starts : n.StartsWith t)
      (quiet : directives.Misses inside)
  /-- A method, with the tokens that are skipped behind it if it is broken. -/
  | method {n : Node} {own skipped : List Token} {span : Span} (only : ns = [n])
      (kind : isMethod n.kind) (sign : t.kind.isAtKeyword = false) (split : inside = own ++ skipped)
      (range : n.range = some span) (covers : Covers span (t :: own))
      (groups : directivesOutsideGroups.Misses own) (quiet : directives.Misses skipped)
  /-- The mark of a section, or an unknown member. -/
  | other (start : t.kind ≠ .atProperty) (quiet : directives.Misses inside)

variable {s : ReadState} {t : Token} {rest : List Token}

/-- A broken member is skipped up to the next directive at most. -/
theorem ends_recoverMember {r : Rule Unit} {P : ReadState → Prop}
    (h : Ends True r s (fun _ u => P u) fun _ u => P u) : Ends True (recoverMember r) s
      (fun _ s' => ∃ u skipped, P u ∧ Lays u skipped none [] s' ∧ directives.Misses skipped)
      fun _ _ => False := by
  unfold Ends at h ⊢
  unfold recoverMember
  cases hr : r s with
  | done a u =>
    rw [hr] at h
    exact ⟨u, [], h, .of_nodes rfl (.refl _) rfl, .of_not_wanted (by simp)⟩
  | failed e u =>
    rw [hr] at h
    obtain ⟨skipped, hskip, hstop⟩ := lays_reportThenSkip isMemberSync u e
    refine ⟨u, skipped, h, hskip, .of_not_wanted fun x hx => ?_⟩
    exact Bool.eq_false_iff.mpr fun hdirective =>
      Bool.eq_false_iff.mp (hstop x hx) (isMemberSync_of_wanted (w := directives) hdirective)
  | broken fault => trivial

theorem property_turn (hr : s.rest = t :: rest) : Ends True (recoverMember property) s
    (fun _ s' => ∃ inside ns, Lays s (t :: inside) none ns s' ∧ MemberTurn t inside ns)
    fun _ _ => False := by
  have hnode : Ends True property s
      (fun _ u => LaysNode directives isProperty t (.keyword t.kind) s u)
      fun _ u => LaysNode directives isProperty t (.keyword t.kind) s u :=
    ends_withNode_lays (f := fun _ => propertyRest s.inOptional) trivial (ends_keywordHere hr)
      (propertyRest_courseAt _) (propertyRest_passesAt _)
  refine (ends_recoverMember hnode).mono ?_ fun _ _ h => h
  rintro _ s' ⟨u, skipped, ⟨own, n, span, hlays, hkind, _, _, hown, hchildren⟩, hskip, hskipped⟩
  exact ⟨own ++ skipped, [n], hlays.trans hskip,
    .property rfl hkind hchildren (hown.append hskipped)⟩

theorem method_turn (hr : s.rest = t :: rest) (ht : t.kind.isAtKeyword = false) :
    Ends True (recoverMember method) s
      (fun _ s' => ∃ inside ns, Lays s (t :: inside) none ns s' ∧ MemberTurn t inside ns)
      fun _ _ => False := by
  let start : MethodData := ⟨s.current == .plus, none, .missing, s.inOptional⟩
  have hlead : Ends True punctuationHere { s with nodes := s.nodes.begin (.method start) }
      (fun _ s₁ => Lays { s with nodes := s.nodes.begin (.method start) } [t] none
        [⟨s.nodes.nextId + 1, .token t.kind, some t.span, []⟩] s₁) fun _ _ => False := by
    rw [← ReadState.current_of_cons hr]
    exact ends_leafHere (s := { s with nodes := s.nodes.begin (.method start) }) hr (.token s.current)
  have hnode : Ends True method s
      (fun _ u => LaysNode directivesOutsideGroups isMethod t (.token t.kind) s u)
      fun _ u => LaysNode directivesOutsideGroups isMethod t (.token t.kind) s u :=
    ends_withNode_lays (f := fun _ => methodFields start) trivial hlead (methodFields_courseAt _)
      (methodFields_passesAt (fun _ => id) _)
  refine (ends_recoverMember hnode).mono ?_ fun _ _ h => h
  rintro _ s' ⟨u, skipped, ⟨own, n, span, hlays, hkind, hrange, hcovers, hown, _⟩, hskip, hskipped⟩
  exact ⟨own ++ skipped, [n], hlays.trans hskip,
    .method rfl hkind ht rfl hrange hcovers hown hskipped⟩

/-- An unknown member is skipped up to the next directive at most, and it never fails. -/
theorem unknownMember_turn (cause : SyntaxError.Cause) (hr : s.rest = t :: rest)
    (ht : t.kind ≠ .endOfFile) (hproperty : t.kind ≠ .atProperty) :
    Ends True (unknownMember cause) s
      (fun _ s' => ∃ inside ns, Lays s (t :: inside) none ns s' ∧ MemberTurn t inside ns)
      fun _ _ => False := by
  let reported : ReadState := s.report (s.errorHere cause)
  obtain ⟨log, errors, hreport⟩ := s.report_eq (s.errorHere cause)
  have hbehind : reported.advance = reported.past [t] rest :=
    ReadState.advance_of_cons (by rw [show reported = _ from hreport]; exact hr)
  have hskip : Passes directives (fun _ => False) (reported.past [t] rest)
      ((reported.past [t] rest).readWhile
        fun ts => !startsMember ts && kindOf ts != .semicolon) := by
    refine .readWhile (fun ts hts => ?_) _
    cases ts with
    | nil => cases hts
    | cons x ts =>
      show (!(x.kind.isAtKeyword || _) && _) = false
      rw [show x.kind.isAtKeyword = true from hts]
      rfl
  have hpasses : Ends True (unknownMember cause) s
      (fun _ s' => Passes directives (fun _ => False) (reported.past [t] rest) s')
      fun _ _ => False := by
    refine ends_bind.mpr (ends_state.mpr (ends_bind.mpr (ends_report.mpr ?_)))
    refine ends_bind.mpr (ends_advance.mpr (ends_bind.mpr (ends_modify.mpr ?_)))
    rw [show (s.report (s.errorHere cause)).advance = _ from hbehind]
    refine ends_bind.mpr (ends_eat.mpr ⟨fun hc => ?_, fun _ => ?_⟩)
    · exact (PassesAt.done_leafFrom _ _ _).mono (fun _ _ h =>
        (hskip.trans (.advance (by rw [hc]; rfl))).trans h) fun _ _ h => h
    · exact (PassesAt.done_leafFrom _ _ _).mono (fun _ _ h => hskip.trans h) fun _ _ h => h
  refine ((unknownMember_courseAt cause (s := s) (by rwa [ReadState.current_of_cons hr])).and
    hpasses).mono ?_ fun _ _ h => h.2
  rintro _ s' ⟨hcourse, hp⟩
  have hpassed : (reported.past [t] rest).passed = [t].reverse ++ s.passed := by
    rw [show reported = _ from hreport]
    rfl
  obtain ⟨inside, kind, cs, hlays, hmisses, hkind⟩ := hp.lays_behind hpassed
    (by rw [show reported = _ from hreport]; rfl) hcourse
  obtain rfl : kind = none := Option.eq_none_iff_forall_ne_some.mpr fun k hk => hkind k hk
  exact ⟨inside, cs, hlays, .other hproperty hmisses⟩

theorem memberRound_turn (cause : SyntaxError.Cause) (inProtocol : Bool) (hr : s.rest = t :: rest)
    (hbody : endsBody t.kind = false) : Ends True (memberRound cause inProtocol t.kind) s
      (fun _ s' => ∃ inside ns, Lays s (t :: inside) none ns s' ∧ MemberTurn t inside ns)
      fun _ _ => False := by
  have hfile : t.kind ≠ .endOfFile := fun h => by
    rw [h] at hbody
    cases hbody
  have mark : ∀ inOptional : Bool, t.kind ≠ .atProperty → Ends True (do
      modify fun s => { s with inOptional }
      keywordHere) s
      (fun _ s' => ∃ inside ns, Lays s (t :: inside) none ns s' ∧ MemberTurn t inside ns)
      fun _ _ => False := fun inOptional hproperty => by
    have hkeyword := ends_keywordHere (s := { s with inOptional }) hr
    refine ends_bind.mpr (ends_modify.mpr (hkeyword.mono (fun _ s' h => ?_) fun _ _ h => h))
    exact ⟨[], _, ⟨h.passed, h.rest, h.opened, h.placed, h.numbered⟩,
      .other hproperty (.of_not_wanted (by simp))⟩
  unfold memberRound
  split
  · exact property_turn hr
  · next h => exact method_turn hr (by rw [h]; rfl)
  · next h => exact method_turn hr (by rw [h]; rfl)
  · next h =>
    have hproperty : t.kind ≠ .atProperty := by rw [h]; decide
    exact ends_ite.mpr ⟨fun _ => mark _ hproperty, fun _ =>
      unknownMember_turn cause hr hfile hproperty⟩
  · next h =>
    have hproperty : t.kind ≠ .atProperty := by rw [h]; decide
    exact ends_ite.mpr ⟨fun _ => mark _ hproperty, fun _ =>
      unknownMember_turn cause hr hfile hproperty⟩
  · next hproperty _ _ _ _ => exact unknownMember_turn cause hr hfile hproperty

/-- The turns of the loop over members, one behind the other. -/
inductive Members : List Token → List Node → Prop where
  | nil : Members [] []
  | turn {t : Token} {inside ts : List Token} {ns ms : List Node} (more : endsBody t.kind = false)
      (first : MemberTurn t inside ns) (next : Members ts ms) :
      Members (t :: inside ++ ts) (ns ++ ms)

theorem memberList_members (cause : SyntaxError.Cause) (inProtocol : Bool) (fuel : Nat) :
    ∀ s : ReadState, Ends True (memberList cause inProtocol fuel) s
      (fun _ s' => ∃ front cs, Lays s front none cs s' ∧ Members front cs) fun _ _ => False := by
  induction fuel with
  | zero => exact fun _ => trivial
  | succ fuel ih =>
    intro s
    rw [memberList_succ]
    refine ends_bind.mpr (ends_state.mpr (ends_ite.mpr ⟨fun _ => ?_, fun hbody => ?_⟩))
    · exact ⟨[], [], .of_nodes rfl (.refl _) rfl, .nil⟩
    have hbody : endsBody s.current = false := Bool.eq_false_iff.mpr hbody
    obtain ⟨t, rest, hr, ht⟩ := ReadState.exists_cons_of_current (s := s) rfl fun h => by
      rw [h] at hbody
      cases hbody
    rw [← ht] at hbody ⊢
    refine ends_bind.mpr ((memberRound_turn cause inProtocol hr hbody).mono ?_ fun _ _ h => h)
    rintro _ s₁ ⟨inside, ns, hlays, hturn⟩
    refine (ih s₁).mono ?_ fun _ _ h => h
    rintro _ s' ⟨front, cs, hlays', hmembers⟩
    exact ⟨_, _, hlays.trans hlays', .turn hbody hturn hmembers⟩

/-- A directive that is passed stands in the attributes of a method, or the loop has made a turn at
    it. -/
theorem Members.find {front : List Token} {cs : List Node} (h : Members front cs) :
    ∀ before t after, front = before ++ t :: after → t.kind.isAtKeyword = true →
      (InGroup before ∧ ∃ m ∈ cs, isMethod m.kind ∧ ∃ span own, m.range = some span ∧
        Covers span own ∧ t ∈ own ∧ own <:+: front) ∨
      (endsBody t.kind = false ∧
        (t.kind = .atProperty → ∃ p ∈ cs, isProperty p.kind ∧ p.StartsWith t)) := by
  induction h with
  | nil =>
    intro before t after he _
    simp at he
  | @turn t₀ inside ts ns ms more first next ih =>
    intro before t after he ht
    rcases cons_of_append_eq he with ⟨inside', hturn⟩ | ⟨before', rfl, hts⟩
    · rcases List.cons_eq_append_iff.mp hturn with ⟨rfl, hcons⟩ | ⟨before', rfl, hinside⟩
      · -- The turn is made at the directive.
        obtain ⟨rfl, _⟩ := List.cons.inj hcons
        refine Or.inr ⟨more, fun hproperty => ?_⟩
        cases first with
        | property only kind starts _ => exact ⟨_, by rw [only]; simp, kind, starts⟩
        | method _ _ sign => rw [ht] at sign; cases sign
        | other start _ => exact absurd hproperty start
      · cases first with
        | property _ _ _ quiet => exact (quiet _ _ _ hinside ht).elim
        | other _ quiet => exact (quiet _ _ _ hinside ht).elim
        | @method m own skipped span only kind _ split range covers groups quiet =>
          rw [split] at hinside
          rcases cons_of_append_eq hinside with ⟨own', hown⟩ | ⟨_, _, hskipped⟩
          · refine Or.inl ⟨(groups _ _ _ hown ht).behind [t₀], m, by rw [only]; simp, kind, span, _,
              range, covers, by rw [hown]; simp, [], skipped ++ ts, ?_⟩
            rw [split, List.nil_append, List.cons_append, List.cons_append, List.append_assoc]
          · exact (quiet _ _ _ hskipped ht).elim
    · rcases ih before' t after hts ht with ⟨hgroup, m, hm, hkind, span, own, hrange, hcovers, hmem,
        front', back', hown⟩ | ⟨hends, hproperty⟩
      · refine Or.inl ⟨hgroup.behind _, m, List.mem_append_right ns hm, hkind, span, own, hrange,
          hcovers, hmem, t₀ :: inside ++ front', back', ?_⟩
        rw [← hown]
        simp
      · refine Or.inr ⟨hends, fun h => ?_⟩
        obtain ⟨p, hp, hkind, hstarts⟩ := hproperty h
        exact ⟨p, List.mem_append_right ns hp, hkind, hstarts⟩

end Grammar

end HeaderBridge
